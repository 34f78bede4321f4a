import BitLayout.Proofs.Outcome
import BitLayout.Record.Validation
import Mathlib.Algebra.Ring.Int.Defs
import Mathlib.Data.List.Forall2
import Mathlib.Tactic.SplitIfs

/-!
# Successful validation, type by type

What a value has to be for each part of a validation to accept it. Everything that is said about
validated records rests on these statements and not on the validation itself.

## Main results

* `checkBits_eq_ok_iff`, `checkByteCount_eq_ok_iff`: the bounds
* `validateItems_eq_ok_iff`, `validateFields_eq_ok_iff`: items and fields one after another
* `Model.validate_eq_ok_iff`: a whole record
-/

namespace BitLayout

-- The equations of validation are made once here, not by every proof that waits for them.
attribute [local simp] FieldType.validate Model.validate validateFields

namespace Validated

variable {α β γ : Type}

/-- Two results succeed together. -/
theorem both_eq_ok_iff {combine : α → β → γ} {first : Validated α} {second : Validated β} {c : γ} :
    both combine first second = .ok c ↔
      ∃ a b, first = .ok a ∧ second = .ok b ∧ combine a b = c := by
  cases first <;> cases second <;> simp [both]

theorem within_eq_ok_iff {element : PathElement} {result : Validated α} {a : α} :
    result.within element = .ok a ↔ result = .ok a :=
  mapError_eq_ok_iff

theorem fail_ne_ok {kind : IssueKind} {a : α} : fail kind ≠ .ok a := nofun

end Validated

section Bounds

theorem checkBits_eq_ok_iff {bits : Nat} {n m : Int} :
    checkBits bits n = .ok m ↔ n = m ∧ 0 ≤ n ∧ n < 2 ^ bits := by
  have limit : ((1 <<< bits : Nat) : Int) = 2 ^ bits := by simp [Nat.shiftLeft_eq]
  rw [checkBits, limit]
  split_ifs <;> simp [Validated.fail] <;> omega

theorem checkByteCount_eq_ok_iff {length : Nat} {data raw : List UInt8} :
    checkByteCount length data = .ok raw ↔ data = raw ∧ data.length = length := by
  rw [checkByteCount]
  split_ifs <;> simp [Validated.fail] <;> omega

end Bounds

/-- Items are validated one by one. -/
theorem validateItems_eq_ok_iff {item : Value → Validated Value} {index : Nat}
    {items items' : List Value} :
    validateItems item index items = .ok items' ↔
      List.Forall₂ (fun value value' => item value = .ok value') items items' := by
  induction items generalizing index items' with
  | nil => cases items' <;> simp [validateItems]
  | cons first rest ih =>
    simp only [validateItems, Validated.both_eq_ok_iff, Validated.within_eq_ok_iff, ih]
    cases items' <;> simp

namespace FieldType

variable {value value' : Value}

/-- A list is validated item by item; a tuple and a view of bytes count as lists. -/
theorem validate_list_eq_ok_iff {item : FieldType} :
    item.list.validate value = .ok value' ↔
      ∃ items items', (value = .list items ∨ value = .tuple items ∨
          ∃ data, value = .bytes .view data ∧ items = data.map fun b => .int b.toNat) ∧
        List.Forall₂ (fun value value' => item.validate value = .ok value') items items' ∧
        .list items' = value' := by
  cases value with
  | bytes holder data =>
    cases holder <;> simp [map_eq_ok_iff, validateItems_eq_ok_iff, Validated.fail_ne_ok]
  | _ => simp [map_eq_ok_iff, validateItems_eq_ok_iff, Validated.fail_ne_ok]

theorem validate_optional_eq_ok_iff {content : FieldType} :
    content.optional.validate value = .ok value' ↔
      value = .null ∧ value' = .null ∨ value ≠ .null ∧ content.validate value = .ok value' := by
  cases value <;> simp [eq_comm]

theorem validate_record_eq_ok_iff {model : Model} :
    (record model).validate value = .ok value' ↔
      ∃ entries fields, value = .dict entries ∧ model.validate entries = .ok fields ∧
        .dict fields = value' := by
  cases value <;> simp [map_eq_ok_iff, Validated.fail_ne_ok]

end FieldType

section Fields

variable {name : Text} {entries record : Entries}

/-- Fields are validated one by one. A field that is not given needs a default. -/
theorem validateFields_eq_ok_iff {fields : List Field} :
    validateFields fields entries = .ok record ↔
      record.keys = fields.map (fun field => .text field.name) ∧
        ∀ (index : Nat) (field : Field) (key value' : Value), fields[index]? = some field →
          record[index]? = some (key, value') →
            (∀ value, entries.field? field.name = some value →
              field.type.validate value = .ok value') ∧
            (entries.field? field.name = none → field.default = some value') := by
  induction fields generalizing record with
  | nil => cases record <;> simp [Entries.keys]
  | cons field rest ih =>
    obtain ⟨name, type, default⟩ := field
    rw [validateFields.eq_def]
    simp only [Validated.both_eq_ok_iff]
    constructor
    · rintro ⟨value', others, first, later, rfl⟩
      obtain ⟨names, each⟩ := ih.mp later
      refine ⟨congrArg (Value.text name :: ·) names, fun index field key other listed there => ?_⟩
      cases index with
      | succ index => exact each index field key other listed there
      | zero =>
        cases listed
        cases there
        cases found : entries.field? name <;> cases default <;>
          simp_all [Validated.within_eq_ok_iff, Validated.fail_ne_ok, Field.name, Field.type,
            Field.default]
    · rintro ⟨names, each⟩
      cases record with
      | nil => cases names
      | cons entry others =>
        obtain ⟨key, value'⟩ := entry
        obtain ⟨rfl, names_rest⟩ := List.cons.inj names
        have later := ih.mpr ⟨names_rest, fun index field key other listed there =>
          each (index + 1) field key other listed there⟩
        obtain ⟨given, absent⟩ := each 0 _ _ _ rfl rfl
        refine ⟨value', others, ?_, later, rfl⟩
        cases found : entries.field? name with
        | some value => exact Validated.within_eq_ok_iff.mpr (given value found)
        | none =>
          obtain rfl : default = some value' := absent found
          rfl

theorem keyIssue?_eq_none_iff {names : List Text} {key : Value} :
    keyIssue? names key = none ↔ ∃ name ∈ names, key = .text name := by
  cases key <;> simp [keyIssue?]

/-- Every key is the name of a field. -/
theorem checkKeys_eq_ok_iff {names : List Text} {done : Unit} :
    checkKeys names entries = .ok done ↔ ∀ key ∈ entries.keys, ∃ name ∈ names, key = .text name := by
  rw [checkKeys]
  split
  next none_left => simpa [List.filterMap_eq_nil_iff, keyIssue?_eq_none_iff] using none_left
  next issues some_left =>
    simp only [reduceCtorEq, false_iff]
    intro all
    apply some_left
    exact List.filterMap_eq_nil_iff.mpr fun key member => keyIssue?_eq_none_iff.mpr (all key member)

/-- What a record is validated to comes from its fields. All names belong to the model. -/
theorem Model.validate_eq_ok_iff {fields : List Field} {layout : Option Layout} :
    (Model.mk name fields layout).validate entries = .ok record ↔
      validateFields fields entries = .ok record ∧
        ∀ key ∈ entries.keys, ∃ name ∈ fields.map Field.name, key = .text name := by
  rw [Model.validate]
  split_ifs with unencodable
  · obtain ⟨key, member, bad⟩ := List.any_eq_true.mp unencodable
    simp only [Validated.fail_ne_ok, false_iff, not_and]
    intro _ all
    have known := keyIssue?_eq_none_iff.mpr (all key member)
    simp [known] at bad
  · simp [Validated.both_eq_ok_iff, checkKeys_eq_ok_iff]

end Fields

end BitLayout
