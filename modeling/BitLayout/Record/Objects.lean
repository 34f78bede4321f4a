import BitLayout.Record.Library
import BitLayout.Record.Validation

/-!
# Records as objects

A library of records that converts what it is given to the types of the fields where that loses
nothing. Records are kept one after another, each with its model, so that a record is the number of
its place.

## Main definitions

* `FieldType.keep`, `Model.keep`: the records made for a validated value
* `FieldType.dump`, `Model.dump`: the value of what is held
* `RecordLibrary.converting`
-/

namespace BitLayout

/-- A record: its model, and what it holds in the order of the fields. -/
structure RecordObject where
  model : Model
  held : List (Text × Object Nat)

/-- The record with another object under a name. -/
def RecordObject.replace (record : RecordObject) (name : Text) (object : Object Nat) :
    RecordObject :=
  { record with
    held := record.held.map fun (other, old) => (other, if other = name then object else old) }

/-- All records. -/
abbrev Heap := List RecordObject

/-- Whether a value is one of a type as it stands, if the type has no others inside. -/
def FieldType.admitsPlain (type : FieldType) (value : Value) : Bool :=
  match type, value with
  | .int, .int _ => true
  | .unsigned bits, .int n => decide (0 ≤ n) && decide (n < (1 <<< bits : Nat))
  | .bytes, .bytes .fixed _ => true
  | .fixedBytes length, .bytes .fixed raw => raw.length == length
  | .text, .text _ => true
  | .dict, .dict _ => true
  | .any, _ => true
  | _, _ => false

/-- Items one by one, each with the records made for it. -/
def keepItems (item : Value → Heap → Option (Object Nat × Heap)) :
    List Value → Heap → Option (List (Object Nat) × Heap)
  | [], heap => some ([], heap)
  | first :: rest, heap => do
    let (object, heap) ← item first heap
    let (objects, heap) ← keepItems item rest heap
    some (object :: objects, heap)

mutual

/-- What is held of a value of a type, with the records made for it. -/
def FieldType.keep (type : FieldType) (value : Value) (heap : Heap) :
    Option (Object Nat × Heap) :=
  match type with
  | .list item =>
    match value with
    | .list items => do
      let (objects, heap) ← keepItems (fun value heap => item.keep value heap) items heap
      some (.list objects, heap)
    | _ => none
  | .optional content =>
    match value with
    | .null => some (.plain .null, heap)
    | value => content.keep value heap
  | .record model =>
    match value with
    | .dict entries => do
      let (index, heap) ← model.keep entries heap
      some (.ref index, heap)
    | _ => none
  | type => if type.admitsPlain value then some (.plain value, heap) else none
termination_by structural type

/-- A new record of a model behind those made for its fields. -/
def Model.keep (model : Model) (entries : Entries) (heap : Heap) : Option (Nat × Heap) :=
  match model with
  | .mk name fields layout => do
    let (held, heap) ← keepFields fields entries heap
    some (heap.length, heap ++ [⟨.mk name fields layout, held⟩])
termination_by structural model

/-- What is held in fields, no two of which have one name. A default need not be of the type of its
field. -/
def keepFields (fields : List Field) (entries : Entries) (heap : Heap) :
    Option (List (Text × Object Nat) × Heap) :=
  match fields with
  | [] => if entries.isEmpty then some ([], heap) else none
  | .mk name type default :: rest =>
    match entries with
    | [] => none
    | (key, value) :: entries => do
      let .text name' := key | none
      if name' ≠ name || (rest.map Field.name).contains name then none
      else
        let (object, heap) ←
          (type.keep value heap).or (default.map fun _ => (Object.plain value, heap))
        let (held, heap) ← keepFields rest entries heap
        some ((name, object) :: held, heap)
termination_by structural fields

end

mutual

/-- The value of what is held in a field of a type. -/
def FieldType.dump (type : FieldType) (heap : Heap) (object : Object Nat) : Value :=
  match type with
  | .list item =>
    match object with
    | .list objects => .list (objects.map fun object => item.dump heap object)
    | .plain value => value
    | _ => .null
  | .optional content => content.dump heap object
  | .record model =>
    match object with
    | .ref index => .dict (model.dump heap ((heap[index]?.map RecordObject.held).getD []))
    | .plain value => value
    | _ => .null
  | _ =>
    match object with
    | .plain value => value
    | _ => .null
termination_by structural type

/-- The values of what a record of a model holds. -/
def Model.dump (model : Model) (heap : Heap) (held : List (Text × Object Nat)) : Entries :=
  match model with
  | .mk _ fields _ => dumpFields fields heap held
termination_by structural model

/-- The values of what is held in fields. -/
def dumpFields (fields : List Field) (heap : Heap) (held : List (Text × Object Nat)) : Entries :=
  match fields with
  | [] => []
  | .mk name type _ :: rest =>
    (.text name, (held.lookup name).elim .null fun object => type.dump heap object) ::
      dumpFields rest heap held
termination_by structural fields

end

namespace Heap

/-- The values of a record. -/
def dump (heap : Heap) (index : Nat) : Entries :=
  (heap[index]?).elim [] fun record => record.model.dump heap record.held

/-- Makes a record of a model from what is given for it. -/
def create (model : Model) (given : Object Nat) (heap : Heap) :
    Except (List Issue) Nat × Heap :=
  match given.value heap.dump with
  | .dict entries =>
    match model.validate entries with
    | .error issues => (.error issues, heap)
    | .ok record =>
      match model.keep record heap with
      | none => (.error [], heap)
      | some (index, heap) => (.ok index, heap)
  | _ => (.error [⟨.modelType, []⟩], heap)

end Heap

/-- The name under which every model holds its layout. -/
def layoutName : Text := "bitschema_layout"

/-- The names under which every record tells about itself. -/
def readOnlyNames : List Text := ["model_extra", "model_fields_set"]

/-- The field of a name whose value can be replaced, if there is one. A name with an underscore at
its front is private and stands for no field. -/
def Model.assignable (model : Model) (name : Text) : Except AssignError (Option Field) :=
  if name = layoutName then .error (.ofModel model.name name)
  else if name.startsWith "_" then .ok none
  else if readOnlyNames.contains name then .error (.readOnly model.name name)
  else match Encoding.utf8.encode name with
    | .error fault => .error (.unencodable fault)
    | .ok _ =>
      match model.fields.find? (·.name = name) with
      | none => .error (.invalid [⟨.noSuchAttribute, [.field name]⟩])
      | some field => .ok (some field)

namespace Heap

/-- Replaces what a record holds under a name by a converted value. -/
def assign (index : Nat) (name : Text) (given : Object Nat) (heap : Heap) :
    Except AssignError Unit × Heap :=
  match heap[index]? with
  | none => (.error (.noRecord name), heap)
  | some record =>
    match record.model.assignable name with
    | .error error => (.error error, heap)
    | .ok none => (.ok (), heap)
    | .ok (some field) =>
      match (field.type.validate (given.value heap.dump)).within (.field name) with
      | .error issues => (.error (.invalid issues), heap)
      | .ok value =>
        match field.type.keep value heap with
        | none => (.error (.invalid []), heap)
        | some (object, heap) =>
          (.ok (), heap.set index (record.replace name object))

end Heap

/-- The library of records that are kept one after another, with converted values. -/
def RecordLibrary.converting : RecordLibrary where
  State := Heap
  Record := Nat
  Given := Object Nat
  ofValue := .plain
  start := []
  model? heap index := heap[index]?.map RecordObject.model
  held? heap index name := heap[index]?.bind fun record => record.held.lookup name
  create := Heap.create
  assign := Heap.assign
  dump := Heap.dump

end BitLayout
