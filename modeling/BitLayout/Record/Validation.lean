import BitLayout.Record.Model
import BitLayout.Record.Numeral
import BitLayout.Text.Encoding
import BitLayout.Value.Printer

/-!
# Validation of records

Values are converted to the types of the fields where that loses nothing, and everything that is
wrong with them is reported, fields in order and unknown names after them.

## Main definitions

* `FieldType.validate`, `Model.validate`
-/

namespace BitLayout

/-- A validated value or everything that is wrong. -/
abbrev Validated (α : Type) := Except (List Issue) α

namespace Validated

/-- A single issue of the value at hand. -/
def fail {α : Type} (kind : IssueKind) : Validated α := .error [⟨kind, []⟩]

/-- The result seen from one level further out. -/
def within {α : Type} (element : PathElement) (result : Validated α) : Validated α :=
  result.mapError (List.map (Issue.within element))

/-- Two results together, with the issues of both. -/
def both {α β γ : Type} (combine : α → β → γ) (first : Validated α) (second : Validated β) :
    Validated γ :=
  match first, second with
  | .ok a, .ok b => .ok (combine a b)
  | .ok _, .error issues => .error issues
  | .error issues, .ok _ => .error issues
  | .error issues, .error others => .error (issues ++ others)

end Validated

/-- The integer that a text spells in decimal. -/
def readNumeral (t : Text) : Validated Int :=
  match Numeral.read t with
  | .ok n => .ok n
  | .error .malformed => .fail .intParsing
  | .error .tooLong => .fail .intParsingSize

/-- The integer that a value stands for: itself, a truth value, a double without a fraction, or a
decimal numeral in a text or in bytes. -/
def validateInt (value : Value) : Validated Int :=
  match value with
  | .int n => .ok n
  | .bool b => .ok b.toInt
  | .float x =>
    if !x.isFinite then .fail .finiteNumber
    else match x.toInt? with
      | none => .fail .intFromFloat
      | some n => if n.natAbs < 1 <<< 63 then .ok n else .fail .intParsingSize
  | .text t =>
    if t.any CodePoint.isSurrogate then .fail .stringUnicode else readNumeral t
  | .bytes .fixed data =>
    match Encoding.decode8 data with
    | .ok t => readNumeral t
    | .error _ => .fail .intParsing
  | _ => .fail .intType

/-- The byte string that a value stands for: itself or the UTF-8 of a text. -/
def validateBytes (value : Value) : Validated (List UInt8) :=
  match value with
  | .bytes .fixed data => .ok data
  | .bytes .growable data => .ok data
  | .text t =>
    match Encoding.encode .utf8 t with
    | .ok data => .ok data
    | .error _ => .fail .stringUnicode
  | _ => .fail .bytesType

/-- The text that a value stands for: itself or UTF-8 in bytes. -/
def validateText (value : Value) : Validated Text :=
  match value with
  | .text t => .ok t
  | .bytes .view _ => .fail .stringType
  | .bytes _ data =>
    match Encoding.decode8 data with
    | .ok t => .ok t
    | .error _ => .fail .stringUnicode
  | _ => .fail .stringType

/-- An integer of at most `bits` bits. -/
def checkBits (bits : Nat) (n : Int) : Validated Int :=
  if (1 <<< bits : Nat) ≤ n then .fail .lessThanEqual
  else if n < 0 then .fail .greaterThanEqual
  else .ok n

/-- A byte string of exactly `length` bytes. -/
def checkByteCount (length : Nat) (data : List UInt8) : Validated (List UInt8) :=
  if data.length < length then .fail .bytesTooShort
  else if length < data.length then .fail .bytesTooLong
  else .ok data

/-- Items one by one, of which the first is at position `index`. -/
def validateItems (item : Value → Validated Value) (index : Nat) :
    List Value → Validated (List Value)
  | [] => .ok []
  | first :: rest =>
    Validated.both List.cons ((item first).within (.index (index : Nat)))
      (validateItems item (index + 1) rest)

/-- Whether a location holds an integer as such. -/
def isPosition (n : Int) : Bool := -(1 <<< 63 : Nat) ≤ n && n < (1 <<< 63 : Nat)

/-- How a location shows a value that is no text. -/
def shownKey (key : Value) : Text :=
  key.written.text?.getD ("<unprintable " ++ key.typeName ++ " object>")

/-- The step to an entry under a key that is no text: its number, otherwise its written form. -/
def keyElement (key : Value) : PathElement :=
  match key.integer? with
  | some n => if isPosition n.toInt then .index (.number n.toInt) else .field (shownKey key)
  | none => .field (shownKey key)

/-- What is wrong with a key of a record with the given fields. A text has to be one of their
names. -/
def keyIssue? (names : List Text) (key : Value) : Option Issue :=
  match key with
  | .text name => if names.contains name then none else some ⟨.extraForbidden, [.field name]⟩
  | key => some ⟨.invalidKey, [keyElement key]⟩

/-- Whether a key is a text that has no bytes. -/
def isUnencodableKey (key : Value) : Bool :=
  match key with
  | .text name => name.any CodePoint.isSurrogate
  | _ => false

/-- Every key is the name of a field. -/
def checkKeys (names : List Text) (entries : Entries) : Validated Unit :=
  match (Entries.keys entries).filterMap (keyIssue? names) with
  | [] => .ok ()
  | issues => .error issues

mutual

/-- The value converted to a type. -/
def FieldType.validate (type : FieldType) (value : Value) : Validated Value :=
  match type with
  | .int => Value.int <$> validateInt value
  | .unsigned bits => Value.int <$> (validateInt value >>= checkBits bits)
  | .bytes => Value.ofBytes <$> validateBytes value
  | .fixedBytes length => Value.ofBytes <$> (validateBytes value >>= checkByteCount length)
  | .text => Value.text <$> validateText value
  | .list item =>
    match value with
    | .list items => Value.list <$> validateItems (fun v => item.validate v) 0 items
    | .tuple items => Value.list <$> validateItems (fun v => item.validate v) 0 items
    | .bytes .view data =>
      Value.list <$> validateItems (fun v => item.validate v) 0 (data.map fun b => .int b.toNat)
    | _ => .fail .listType
  | .optional content =>
    match value with
    | .null => .ok .null
    | value => content.validate value
  | .record model =>
    match value with
    | .dict entries => Value.dict <$> model.validate entries
    | _ => .fail .modelType
  | .dict =>
    match value with
    | .dict entries => .ok (.dict entries)
    | _ => .fail .dictType
  | .any => .ok value
termination_by structural type

/-- The record with every field converted and defaults filled in. Defaults are taken as they are. An
unknown name that has no bytes spoils the whole record. -/
def Model.validate (model : Model) (entries : Entries) : Validated Entries :=
  match model with
  | .mk _ fields _ =>
    let names := fields.map Field.name
    if (Entries.keys entries).any fun key =>
        isUnencodableKey key && (keyIssue? names key).isSome then
      .fail .stringUnicode
    else
      Validated.both (fun record _ => record) (validateFields fields entries)
        (checkKeys names entries)
termination_by structural model

/-- The given fields of a record. -/
def validateFields (fields : List Field) (entries : Entries) : Validated Entries :=
  match fields with
  | [] => .ok []
  | .mk name type default :: rest =>
    let first : Validated Value :=
      match entries.field? name, default with
      | some value, _ => (type.validate value).within (.field name)
      | none, some value => .ok value
      | none, none => (Validated.fail .missing).within (.field name)
    Validated.both (fun value record => (.text name, value) :: record) first
      (validateFields rest entries)
termination_by structural fields

end

end BitLayout
