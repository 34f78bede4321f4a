import BitLayout.Json.Error
import BitLayout.Number.Decimal
import BitLayout.Value.Basic

/-!
# Printing JSON

The JSON text of a value, on one line or with one item a line. Everything but printable ASCII is
escaped, so the text holds no other code point.

## Main definitions

* `Json.Style`: how items are set apart
* `Json.print`
-/

namespace BitLayout.Json

/-- How the items of arrays and objects are set apart. -/
inductive Style where
  /-- All on one line. -/
  | line
  /-- One item a line, indented by two spaces a level. -/
  | indented
deriving DecidableEq

/-- A backslash, the letter `u` and four hexadecimal digits. -/
def unicodeEscape (n : Nat) : Text := "\\u" ++ Text.hex 4 n

/-- One code point inside a string. -/
def printChar (c : CodePoint) : Text :=
  let n := c.toNat
  if n = 0x22 then "\\\""
  else if n = 0x5C then "\\\\"
  else if n = 0x0A then "\\n"
  else if n = 0x0D then "\\r"
  else if n = 0x09 then "\\t"
  else if n = 0x0C then "\\f"
  else if n = 0x08 then "\\b"
  else if 0x20 ≤ n && n < 0x7F then [c]
  else if n < 0x10000 then unicodeEscape n
  else
    unicodeEscape (0xD800 + (n - 0x10000) / 0x400) ++
      unicodeEscape (0xDC00 + (n - 0x10000) % 0x400)

/-- A string in its quotes. -/
def printString (t : Text) : Text := "\"" ++ t.flatMap printChar ++ "\""

/-- An integer, unless it has too many digits. -/
def printInt (n : Int) : Except JsonPrintError Text :=
  let digits := Text.ofNat n.natAbs
  if maxDigits < digits.length then .error .tooManyDigits else .ok (Text.ofInt n)

/-- A double, with the words for infinity and NaN. -/
def printFloat (x : Binary64) : Text :=
  match x.shape with
  | .nan => "NaN"
  | .infinite negative => if negative then "-Infinity" else "Infinity"
  | .finite .. => x.render

/-- A truth value. -/
def printBool (b : Bool) : Text := if b then "true" else "false"

/-- The text of a value as the name of a member. -/
def keyText (key : Value) : Except JsonPrintError Text :=
  match key with
  | .text t => .ok t
  | .float x => .ok (printFloat x)
  | .bool b => .ok (printBool b)
  | .null => .ok "null"
  | .int n => printInt n
  | key => .error (.keyType key.typeName)

/-- The start of a new item at a level of nesting. -/
def lineBreak (style : Style) (level : Nat) : Text :=
  match style with
  | .line => []
  | .indented => "\n" ++ Text.repeated (2 * level) " "

/-- What separates two items at a level of nesting. -/
def separator (style : Style) (level : Nat) : Text :=
  match style with
  | .line => ", "
  | .indented => "," ++ lineBreak style level

mutual

/-- The text of a value at a level of nesting. -/
def printAt (style : Style) (level : Nat) (value : Value) : Except JsonPrintError Text :=
  match value with
  | .null => .ok "null"
  | .bool b => .ok (printBool b)
  | .int n => printInt n
  | .float x => .ok (printFloat x)
  | .text t => .ok (printString t)
  | .list items => printArray style level items
  | .tuple items => printArray style level items
  | .dict entries =>
    match entries with
    | [] => .ok "\x7b\x7d"
    | entry :: rest => do
      let parts ← printEntries style (level + 1) (entry :: rest)
      .ok ("\x7b" ++ lineBreak style (level + 1) ++
        Text.joined (separator style (level + 1)) parts ++ lineBreak style level ++ "\x7d")
  | value => .error (.valueType value.typeName)

/-- The text of items in brackets. -/
def printArray (style : Style) (level : Nat) (items : List Value) :
    Except JsonPrintError Text :=
  match items with
  | [] => .ok "[]"
  | item :: rest => do
    let first ← printAt style (level + 1) item
    let others ← printItems style (level + 1) rest
    .ok ("[" ++ lineBreak style (level + 1) ++
      Text.joined (separator style (level + 1)) (first :: others) ++ lineBreak style level ++ "]")

/-- The texts of items one by one. -/
def printItems (style : Style) (level : Nat) (items : List Value) :
    Except JsonPrintError (List Text) :=
  match items with
  | [] => .ok []
  | item :: rest => do
    let first ← printAt style level item
    let others ← printItems style level rest
    .ok (first :: others)

/-- The texts of entries one by one. -/
def printEntries (style : Style) (level : Nat) (entries : List (Value × Value)) :
    Except JsonPrintError (List Text) :=
  match entries with
  | [] => .ok []
  | (key, value) :: rest => do
    let name ← keyText key
    let content ← printAt style level value
    let others ← printEntries style level rest
    .ok ((printString name ++ ": " ++ content) :: others)

end

/-- The text of a value. -/
def print (style : Style) (value : Value) : Except JsonPrintError Text := printAt style 0 value

end BitLayout.Json
