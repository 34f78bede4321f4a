import BitLayout.Record.Model
import BitLayout.Text.Encoding

/-!
# Libraries of records

Records are objects with a class and fields, which a caller makes, holds in other records and
changes. The library that does this is not part of this development: it is a parameter of reading
and writing records, and what is assumed of it is stated where it is used.

## Main definitions

* `Object`: plain values, records, and lists and dicts of these
* `RecordLibrary`: what a library of records does
* `RecordLibrary.Step`, `RecordLibrary.run`: making and changing records, step after step
-/

namespace BitLayout

/-- A plain value, a record, or a list or dict of such objects. -/
inductive Object (Record : Type) where
  | plain (value : Value)
  | list (items : List (Object Record))
  | dict (entries : List (Text × Object Record))
  | ref (record : Record)

namespace Object

variable {Record : Type}

mutual

/-- The plain value of an object, given the values of the records in it. -/
def value (dump : Record → Entries) (object : Object Record) : Value :=
  match object with
  | .plain value => value
  | .list items => .list (values dump items)
  | .dict entries => .dict (namedValues dump entries)
  | .ref record => .dict (dump record)
termination_by structural object

/-- The plain values of objects one by one. -/
def values (dump : Record → Entries) (items : List (Object Record)) : List Value :=
  match items with
  | [] => []
  | first :: rest => first.value dump :: values dump rest
termination_by structural items

/-- The plain values of objects under names. -/
def namedValues (dump : Record → Entries) (entries : List (Text × Object Record)) : Entries :=
  match entries with
  | [] => []
  | (name, first) :: rest => (.text name, first.value dump) :: namedValues dump rest
termination_by structural entries

end

end Object

/-- Why something in a record cannot be replaced. -/
inductive AssignError where
  /-- A name that belongs to the model, not to its records. -/
  | ofModel (model name : Text)
  /-- A name that only tells about a record. -/
  | readOnly (model name : Text)
  /-- A name that has no bytes. -/
  | unencodable (fault : EncodeFault)
  | invalid (issues : List Issue)
  /-- There is no record to change. -/
  | noRecord (name : Text)

/-- The wording of a reason, without the issues. -/
def AssignError.message : AssignError → Text
  | .ofModel model name =>
    name.quoted ++ " is a ClassVar of " ++ ("`" : Text) ++ model ++
      "` and cannot be set on an instance. If you want to set a value on the class, use `" ++
      model ++ "." ++ name ++ " = value`."
  | .readOnly model name =>
    "property '" ++ name ++ "' of '" ++ model ++ "' object has no setter"
  | .unencodable fault => fault.message
  | .invalid _ => []
  | .noRecord name => "'NoneType' object has no attribute '" ++ name ++ "'"

/-- What a library of records does. Records may be held by several others, so that a change of one is
a change of the state that they all share. -/
structure RecordLibrary where
  /-- Which records there are, and what they hold. -/
  State : Type
  Record : Type
  /-- What a caller may give for a record or for a field. -/
  Given : Type
  ofValue : Value → Given
  /-- No records at all. -/
  start : State
  /-- The model of a record, if there is this record. -/
  model? : State → Record → Option Model
  /-- What a record holds under a name. -/
  held? : State → Record → Text → Option (Object Record)
  /-- A record of a model from what is given for it. -/
  create : Model → Given → State → Except (List Issue) Record × State
  /-- A record with what is given in place of what it holds under a name. -/
  assign : Record → Text → Given → State → Except AssignError Unit × State
  /-- The values of a record by name, with those of the records in it. -/
  dump : State → Record → Entries

end BitLayout
