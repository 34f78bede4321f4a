import BitLayout.Text.Wording

/-!
# JSON faults

Why a text is no JSON document and why a value has no JSON text.

## Main definitions

* `JsonFault`, `JsonFault.message`: a reason and the place it was found
* `JsonPrintError`, `JsonPrintError.message`
-/

namespace BitLayout

/-- Why a text is no JSON document. -/
inductive JsonReason where
  | value
  | propertyName
  | colon
  | comma
  | unterminatedString
  | controlCharacter
  | escape
  | unicodeEscape
  | extraData
  /-- A byte order mark at the start. -/
  | mark
  /-- An integer with more digits than are read. -/
  | tooManyDigits (count : Nat)
deriving DecidableEq

/-- The wording of a reason. -/
def JsonReason.message : JsonReason → Text
  | .value => "Expecting value"
  | .propertyName => "Expecting property name enclosed in double quotes"
  | .colon => "Expecting ':' delimiter"
  | .comma => "Expecting ',' delimiter"
  | .unterminatedString => "Unterminated string starting at"
  | .controlCharacter => "Invalid control character at"
  | .escape => "Invalid \\escape"
  | .unicodeEscape => "Invalid \\uXXXX escape"
  | .extraData => "Extra data"
  | .mark => "Unexpected UTF-8 BOM (decode using utf-8-sig)"
  | .tooManyDigits count =>
    BitLayout.tooManyDigits (": value has " ++ Text.ofNat count ++ " digits")

/-- A reason and where it was found, as the number of code points from there to the end. -/
structure JsonFault where
  reason : JsonReason
  remaining : Nat
deriving DecidableEq

/-- The wording of a fault in a document: the reason with line, column and offset. -/
def JsonFault.message (document : Text) (fault : JsonFault) : Text :=
  match fault.reason with
  | .tooManyDigits _ => fault.reason.message
  | _ =>
    let before := document.take (document.length - fault.remaining)
    let newline := CodePoint.ofChar '\n'
    let line := before.count newline + 1
    let column := (before.reverse.takeWhile (· ≠ newline)).length + 1
    fault.reason.message ++ ": line " ++ Text.ofNat line ++ " column " ++ Text.ofNat column ++
      " (char " ++ Text.ofNat before.length ++ ")"

/-- Why a value has no JSON text. -/
inductive JsonPrintError where
  | valueType (typeName : Text)
  | keyType (typeName : Text)
  | tooManyDigits
deriving DecidableEq

/-- The wording of a reason. -/
def JsonPrintError.message : JsonPrintError → Text
  | .valueType typeName => "Object of type " ++ typeName ++ " is not JSON serializable"
  | .keyType typeName => "keys must be str, int, float, bool or None, not " ++ typeName
  | .tooManyDigits => BitLayout.tooManyDigits []

end BitLayout
