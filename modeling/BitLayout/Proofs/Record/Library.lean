import BitLayout.Proofs.Value.Equality
import BitLayout.Record.Binary
import Mathlib.Algebra.Ring.Int.Defs
import Mathlib.Data.List.Nodup

/-!
# What is expected of a library of records

The library of records is a parameter. What reading and writing records relies on is that it enforces
the types of fields whenever it makes a record or changes one, and that it takes a value which is of
the declared type already as it stands. Both are stated here, for one field of one record at a time.

## Main definitions

* `FieldType.Typed`, `FieldType.Holds`: values of the kind of a type, and those within its bounds
* `FieldType.Keeps`: a value that is taken as it stands
* `RecordLibrary.Admits`: an object that a field may hold
* `RecordLibrary.Advances`: records made and changed, with nothing but enforced values
* `RecordLibrary.Enforces`, `RecordLibrary.TakesTyped`: what is expected
-/

namespace BitLayout

theorem Object.values_eq {Record : Type} (dump : Record → Entries) (items : List (Object Record)) :
    values dump items = items.map (value dump) := by
  induction items with
  | nil => rfl
  | cons first rest ih => rw [values, ih, List.map_cons]

namespace Entries

variable {fields : List Field} {field : Field} {entries : Entries} {value : Value}

/-- Every field is found in a record that has the names of all. -/
theorem exists_field?_of_names (names : entries.keys = fields.map fun field => .text field.name)
    (member : field ∈ fields) : ∃ value, entries.field? field.name = some value := by
  refine Option.ne_none_iff_exists'.mp fun absent => field?_eq_none_iff.mp absent ?_
  rw [names]
  exact List.mem_map_of_mem member

/-- What is found in a record with the names of fields stands where a field of this name does. -/
theorem exists_getElem?_of_field? (names : entries.keys = fields.map fun field => .text field.name)
    {name : Text} (found : entries.field? name = some value) :
    ∃ (index : Nat) (field : Field), fields[index]? = some field ∧ field.name = name ∧
      entries[index]? = some (.text name, value) := by
  obtain ⟨index, there⟩ := List.mem_iff_getElem?.mp (mem_of_field? found)
  have same := congrArg (·[index]?) names
  simp only [keys, List.getElem?_map, there, Option.map_some] at same
  obtain ⟨field, listed, same_name⟩ := Option.map_eq_some_iff.mp same.symm
  exact ⟨index, field, listed, Value.text.inj same_name, there⟩

/-- The keys of a record with the names of fields are texts, each once. -/
theorem keyedBy_of_names (distinct : (fields.map Field.name).Nodup)
    (names : entries.keys = fields.map fun field => .text field.name) :
    entries.KeyedBy fun _ => True := by
  have keys : entries.keys = (fields.map Field.name).map Value.text := by
    rw [names, List.map_map]
    rfl
  refine ⟨fun key member => ?_, ?_⟩
  · rw [keys] at member
    obtain ⟨t, -, rfl⟩ := List.mem_map.mp member
    exact ⟨t, rfl, trivial⟩
  · rw [keys]
    exact distinct.map fun _ _ => Value.text.inj

/-- What stands where a field does is found under its name. -/
theorem field?_of_getElem? (distinct : (fields.map Field.name).Nodup)
    (names : entries.keys = fields.map fun field => .text field.name) {index : Nat}
    (listed : fields[index]? = some field) {key : Value}
    (there : entries[index]? = some (key, value)) : entries.field? field.name = some value := by
  have same := congrArg (·[index]?) names
  simp only [Entries.keys, List.getElem?_map, there, listed, Option.map_some, Option.some.injEq]
    at same
  exact field?_of_mem (keyedBy_of_names distinct names).once (same ▸ List.mem_of_getElem? there)

/-- A field is found among others that are made of their names. -/
theorem field?_map {f : Text → Value} (member : field ∈ fields) :
    field? (fields.map fun field => (.text field.name, f field.name)) field.name =
      some (f field.name) := by
  induction fields with
  | nil => cases member
  | cons first rest ih =>
    rw [List.map_cons]
    -- Of several fields with one name any will do, because the value depends on the name only.
    by_cases same : first.name = field.name
    · rw [same, field?_cons_self]
    · rw [field?_cons_of_ne fun equal => same (Value.text.inj equal)]
      exact ih ((List.mem_cons.mp member).resolve_left fun equal => same (by rw [equal]))

end Entries

/-- A value of the kind of a type, with values of the right kind in it. Bounds are not considered,
and fields may be missing. -/
inductive FieldType.Typed : FieldType → Value → Prop
  | int {n : Int} : FieldType.int.Typed (.int n)
  | unsigned {bits : Nat} {n : Int} : (FieldType.unsigned bits).Typed (.int n)
  | bytes {raw : List UInt8} : FieldType.bytes.Typed (.ofBytes raw)
  | fixedBytes {length : Nat} {raw : List UInt8} : (FieldType.fixedBytes length).Typed (.ofBytes raw)
  | text {t : Text} : FieldType.text.Typed (.text t)
  | list {item : FieldType} {items : List Value} (each : ∀ value ∈ items, item.Typed value) :
    (FieldType.list item).Typed (.list items)
  | nothing {content : FieldType} : (FieldType.optional content).Typed .null
  | optional {content : FieldType} {value : Value} (typed : content.Typed value) :
    (FieldType.optional content).Typed value
  | record {name : Text} {fields : List Field} {layout : Option Layout} {entries : Entries}
    (each : ∀ field ∈ fields, ∀ value, entries.field? field.name = some value →
      field.type.Typed value) :
    (FieldType.record (.mk name fields layout)).Typed (.dict entries)
  | dict {entries : Entries} : FieldType.dict.Typed (.dict entries)
  | any {value : Value} : FieldType.any.Typed value

/-- A value within the bounds of a type. A record has exactly the fields of its model, in order. -/
inductive FieldType.Holds : FieldType → Value → Prop
  | int {n : Int} : FieldType.int.Holds (.int n)
  | unsigned {bits : Nat} {n : Int} (least : 0 ≤ n) (less : n < 2 ^ bits) :
    (FieldType.unsigned bits).Holds (.int n)
  | bytes {raw : List UInt8} : FieldType.bytes.Holds (.ofBytes raw)
  | fixedBytes {length : Nat} {raw : List UInt8} (same : raw.length = length) :
    (FieldType.fixedBytes length).Holds (.ofBytes raw)
  | text {t : Text} : FieldType.text.Holds (.text t)
  | list {item : FieldType} {items : List Value} (each : ∀ value ∈ items, item.Holds value) :
    (FieldType.list item).Holds (.list items)
  | nothing {content : FieldType} : (FieldType.optional content).Holds .null
  | optional {content : FieldType} {value : Value} (some : value ≠ .null)
    (holds : content.Holds value) : (FieldType.optional content).Holds value
  | record {name : Text} {fields : List Field} {layout : Option Layout} {entries : Entries}
    (distinct : (fields.map Field.name).Nodup)
    (names : entries.keys = fields.map fun field => .text field.name)
    (each : ∀ field ∈ fields, ∀ value, entries.field? field.name = some value →
      field.type.Holds value) :
    (FieldType.record (.mk name fields layout)).Holds (.dict entries)
  | dict {entries : Entries} : FieldType.dict.Holds (.dict entries)
  | any {value : Value} : FieldType.any.Holds value

/-- A type without other types in it. -/
def FieldType.IsLeaf : FieldType → Prop
  | .list _ | .optional _ | .record _ => False
  | _ => True

/-- The first value is taken as it stands and comes out as the second one: the same, except that its
records, also those in it, have their fields in order, with a default for each that is not given, and
no others. -/
inductive FieldType.Keeps : FieldType → Value → Value → Prop
  | leaf {type : FieldType} {value : Value} (leaf : type.IsLeaf) : type.Keeps value value
  | list {item : FieldType} {items items' : List Value} (length : items.length = items'.length)
    (each : ∀ (index : Nat) (value value' : Value), items[index]? = some value →
      items'[index]? = some value' → item.Keeps value value') :
    (FieldType.list item).Keeps (.list items) (.list items')
  | nothing {content : FieldType} : (FieldType.optional content).Keeps .null .null
  | optional {content : FieldType} {value value' : Value} (some : value ≠ .null)
    (inside : content.Keeps value value') : (FieldType.optional content).Keeps value value'
  | record {name : Text} {fields : List Field} {layout : Option Layout} {entries record : Entries}
    (known : ∀ key ∈ entries.keys, ∃ field ∈ fields, key = .text field.name)
    (names : record.keys = fields.map fun field => .text field.name)
    (given : ∀ (index : Nat) (field : Field) (key value value' : Value),
      fields[index]? = some field → record[index]? = some (key, value') →
      entries.field? field.name = some value → field.type.Keeps value value')
    (absent : ∀ (index : Nat) (field : Field) (key value' : Value),
      fields[index]? = some field → record[index]? = some (key, value') →
      entries.field? field.name = none → field.default = some value') :
    (FieldType.record (.mk name fields layout)).Keeps (.dict entries) (.dict record)

namespace RecordLibrary

variable (library : RecordLibrary)

/-- What a field of a type may hold in a state. Of dicts of any kind nothing is expected. -/
inductive Admits (s : library.State) : FieldType → Object library.Record → Prop
  | int {n : Int} : Admits s .int (.plain (.int n))
  | unsigned {bits : Nat} {n : Int} (least : 0 ≤ n) (less : n < 2 ^ bits) :
    Admits s (.unsigned bits) (.plain (.int n))
  | bytes {raw : List UInt8} : Admits s .bytes (.plain (.ofBytes raw))
  | fixedBytes {length : Nat} {raw : List UInt8} (same : raw.length = length) :
    Admits s (.fixedBytes length) (.plain (.ofBytes raw))
  | text {t : Text} : Admits s .text (.plain (.text t))
  | list {item : FieldType} {objects : List (Object library.Record)}
    (each : ∀ object ∈ objects, Admits s item object) : Admits s (.list item) (.list objects)
  | nothing {content : FieldType} : Admits s (.optional content) (.plain .null)
  | optional {content : FieldType} {object : Object library.Record}
    (inside : Admits s content object) : Admits s (.optional content) object
  | record {model : Model} {record : library.Record} (there : library.model? s record = some model) :
    Admits s (.record model) (.ref record)
  | dict {object : Object library.Record} : Admits s .dict object
  | any {object : Object library.Record} : Admits s .any object

/-- A field of a record holds what it may. -/
def Enforced (s : library.State) (record : library.Record) (field : Field) : Prop :=
  ∃ object, library.held? s record field.name = some object ∧ library.Admits s field.type object

/-- From one state to another, records stay what they are, and every field without a default holds
what it has held before or something that is enforced. -/
structure Advances (s s' : library.State) : Prop where
  stays : ∀ {record model}, library.model? s record = some model →
    library.model? s' record = some model
  fields : ∀ {record model}, library.model? s' record = some model →
    ∀ field ∈ model.fields, field.default = none →
      (library.model? s record = some model ∧
        library.held? s' record field.name = library.held? s record field.name) ∨
      library.Enforced s' record field

/-- The states that a library can be in. -/
inductive Reached : library.State → Prop
  | start : Reached library.start
  | create {s : library.State} (reached : Reached s) (model : Model) (given : library.Given) :
    Reached (library.create model given s).2
  | assign {s : library.State} (reached : Reached s) (record : library.Record) (name : Text)
    (given : library.Given) : Reached (library.assign record name given s).2

/-- Bounds are enforced when a record is made and when a field is assigned; what is refused changes
nothing; and what a record is dumped to are the values that were enforced. -/
structure Enforces : Prop where
  start : ∀ record, library.model? library.start record = none
  create_ok : ∀ {model given s record s'}, library.Reached s →
    library.create model given s = (.ok record, s') →
    library.Advances s s' ∧ library.model? s' record = some model
  create_error : ∀ {model given s issues s'}, library.Reached s →
    library.create model given s = (.error issues, s') → s' = s
  assign_ok : ∀ {record name given s s'}, library.Reached s →
    library.assign record name given s = (.ok (), s') → library.Advances s s'
  assign_error : ∀ {record name given s error s'}, library.Reached s →
    library.assign record name given s = (.error error, s') → s' = s
  dump_eq : ∀ {s record model}, library.Reached s → library.model? s record = some model →
    (∀ field ∈ model.fields, library.Enforced s record field) →
    library.dump s record = model.fields.map fun field =>
      (.text field.name, (library.held? s record field.name).elim .null (·.value (library.dump s)))
  /-- Values within the bounds are accepted, in any order of the fields. -/
  accepts : ∀ {model entries record s}, library.Reached s →
    (FieldType.record model).Keeps (.dict entries) (.dict record) →
    (FieldType.record model).Holds (.dict record) →
    ∃ made s', library.create model (library.ofValue (.dict entries)) s = (.ok made, s') ∧
      library.dump s' made = record

/-- If a record is made of values that are of the declared types already, then it has just these
values, and defaults for the others. -/
def TakesTyped : Prop :=
  ∀ {model value s record s'}, library.Reached s →
    library.create model (library.ofValue value) s = (.ok record, s') →
    (FieldType.record model).Typed value →
    (FieldType.record model).Keeps value (.dict (library.dump s' record))

end RecordLibrary

end BitLayout
