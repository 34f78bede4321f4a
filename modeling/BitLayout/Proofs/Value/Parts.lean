import BitLayout.Proofs.Value.Merging

/-!
# Values made of simple ones

Lists and records, nested in any way, of values that are neither.

## Main definitions

* `Value.MadeOf`: what a value is made of and what its keys are
* `Value.IsPlain`: numbers, texts of one kind, byte strings and nothing
* `Value.IsBare`: the same without truth values
* `Value.IsScalar`: the same without byte strings
-/

namespace BitLayout

/-- Lists and records of values of one kind, with texts of one kind for keys. -/
inductive Value.MadeOf (part : Value → Prop) (name : Text → Prop) : Value → Prop
  | part {value : Value} (holds : part value) : Value.MadeOf part name value
  | list {items : List Value} (each : ∀ item ∈ items, Value.MadeOf part name item) :
    Value.MadeOf part name (.list items)
  | dict {entries : Entries} (keyed : entries.KeyedBy name)
    (each : ∀ entry ∈ entries, Value.MadeOf part name entry.2) :
    Value.MadeOf part name (.dict entries)

/-- Nothing, a truth value, an integer, a text of one kind or a fixed byte string. -/
def Value.IsPlain (kind : Text → Prop) : Value → Prop
  | .null | .bool _ | .int _ | .bytes .fixed _ => True
  | .text t => kind t
  | _ => False

/-- Nothing, an integer, a text or a fixed byte string. -/
def Value.IsBare : Value → Prop
  | .null | .int _ | .text _ | .bytes .fixed _ => True
  | _ => False

theorem Value.IsBare.plain {value : Value} (bare : value.IsBare) : value.IsPlain fun _ => True := by
  cases value with
  | bytes holder raw => cases holder <;> exact bare
  | null | bool | int | text => trivial
  | _ => exact bare

/-- Nothing, a truth value, an integer or a text of one kind. -/
def Value.IsScalar (kind : Text → Prop) : Value → Prop
  | .null | .bool _ | .int _ => True
  | .text t => kind t
  | _ => False

namespace Value.MadeOf

variable {part part' : Value → Prop} {name name' : Text → Prop} {value : Value}

theorem mono (made : value.MadeOf part name) (parts : ∀ value, part value → part' value)
    (names : ∀ t, name t → name' t) : value.MadeOf part' name' := by
  induction made with
  | part holds => exact .part (parts _ holds)
  | list _ ih => exact .list ih
  | dict keyed _ ih => exact .dict (keyed.mono names) ih

/-- A record is not simple, so its fields are what it is made of. -/
theorem keyedBy {entries : Entries} (made : (Value.dict entries).MadeOf part name)
    (simple : ∀ entries, ¬part (.dict entries)) :
    entries.KeyedBy name ∧ ∀ entry ∈ entries, entry.2.MadeOf part name := by
  cases made with
  | part holds => exact absurd holds (simple entries)
  | dict keyed each => exact ⟨keyed, each⟩

end Value.MadeOf

end BitLayout
