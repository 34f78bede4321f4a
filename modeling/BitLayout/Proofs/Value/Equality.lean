import BitLayout.Proofs.Value.Parts
import Mathlib.Data.List.Forall2
import Mathlib.Data.List.Perm.Subperm

/-!
# Values that are equal

Equality compares lists item by item, and records by their fields in any order. A record whose keys
are texts, each once, has an equal value for every field of a record that it equals.

## Main results

* `Value.equalItems_iff_forall₂`: equal lists
* `Value.MadeOf.list_of_equals`, `Value.MadeOf.dict_of_equals`: what equals a list or a record is one
* `Entries.exists_field?_of_equalEntries`: equal records have equal fields
-/

namespace BitLayout

theorem Value.equalItems_iff_forall₂ {items' items : List Value} :
    equalItems items' items = true ↔
      List.Forall₂ (fun value' value => value'.equals value = true) items' items := by
  induction items' generalizing items with
  | nil => cases items <;> simp [equalItems]
  | cons first rest ih => cases items <;> simp [equalItems, ih]

theorem Value.equalEntries_iff {entries' entries : Entries} :
    equalEntries entries' entries = true ↔
      ∀ entry' ∈ entries', ∃ entry ∈ entries,
        entry'.1.equals entry.1 = true ∧ entry'.2.equals entry.2 = true := by
  induction entries' with
  | nil => simp [equalEntries]
  | cons entry' rest ih =>
    obtain ⟨key', value'⟩ := entry'
    rw [equalEntries, Bool.and_eq_true, ih, List.any_eq_true, List.forall_mem_cons]
    simp only [Bool.and_eq_true]

namespace Value.MadeOf

variable {name : Text → Prop} {value' : Value}

/-- A decoded integer is compared by itself. -/
theorem int_of_equals (made : value'.MadeOf IsBare name) {n : Int}
    (equal : value'.equals (.int n) = true) : value' = .int n := by
  cases made with
  | part bare =>
    cases value' <;> simp_all [equals, equalNumbers?, integer?, IsBare, Integer.toInt]
  | list | dict => simp [equals, equalNumbers?, integer?] at equal

theorem bytes_of_equals (made : value'.MadeOf IsBare name) {raw : List UInt8}
    (equal : value'.equals (.ofBytes raw) = true) : value' = .ofBytes raw := by
  cases made with
  | part bare =>
    cases value' with
    | bytes holder data =>
      obtain rfl : data = raw := beq_iff_eq.mp equal
      cases holder <;> trivial
    | _ => simp [equals, equalNumbers?, integer?] at equal
  | list | dict => simp [equals, equalNumbers?, integer?] at equal

/-- A value of bare ones that equals a list is one. -/
theorem list_of_equals (made : value'.MadeOf IsBare name) {items : List Value}
    (equal : value'.equals (.list items) = true) :
    ∃ items', value' = .list items' ∧ (∀ item ∈ items', item.MadeOf IsBare name) ∧
      equalItems items' items = true := by
  cases made with
  | part holds => cases value' <;> simp_all [equals, equalNumbers?, integer?, IsBare]
  | list each => exact ⟨_, rfl, each, equal⟩
  | dict keyed each => simp [equals, equalNumbers?, integer?] at equal

/-- A value of bare ones that equals a record is one. -/
theorem dict_of_equals (made : value'.MadeOf IsBare name) {entries : Entries}
    (equal : value'.equals (.dict entries) = true) :
    ∃ entries' : Entries, value' = .dict entries' ∧ entries'.KeyedBy name ∧
      (∀ entry ∈ entries', entry.2.MadeOf IsBare name) ∧
      entries'.length = entries.length ∧ equalEntries entries' entries = true := by
  cases made with
  | part holds => cases value' <;> simp_all [equals, equalNumbers?, integer?, IsBare]
  | list each => simp [equals, equalNumbers?, integer?] at equal
  | dict keyed each =>
    rw [equals, Bool.and_eq_true, beq_iff_eq] at equal
    exact ⟨_, rfl, keyed, each, equal⟩

end Value.MadeOf

namespace Entries

variable {entries entries' : Entries} {kind kind' : Text → Prop} {name : Text} {value : Value}

/-- Under a key that comes once there is one value. -/
theorem field?_of_mem (once : entries.keys.Nodup) (member : (.text name, value) ∈ entries) :
    entries.field? name = some value := by
  induction entries with
  | nil => cases member
  | cons entry rest ih =>
    obtain ⟨key, first⟩ := entry
    obtain ⟨fresh, once⟩ := List.nodup_cons.mp once
    rcases List.mem_cons.mp member with same | member
    · cases same
      exact field?_cons_self
    · rw [field?_cons_of_ne, ih once member]
      intro same
      rw [same] at fresh
      exact fresh (List.mem_map.mpr ⟨_, member, rfl⟩)

/-- A key that equals a text is this text. -/
theorem KeyedBy.eq_of_equals (keyed : entries.KeyedBy kind) {entry : Value × Value}
    (member : entry ∈ entries) {key : Value} (same : key.equals entry.1 = true) : key = entry.1 := by
  obtain ⟨name, text, -⟩ := keyed.named entry.1 (List.mem_map_of_mem member)
  rw [text] at same ⊢
  exact Value.equals_text.mp same

/-- Equal records have the same names. -/
theorem keys_perm_of_equalEntries (keyed' : entries'.KeyedBy kind') (keyed : entries.KeyedBy kind)
    (length : entries'.length = entries.length)
    (equal : Value.equalEntries entries' entries = true) : entries'.keys.Perm entries.keys := by
  have within : entries'.keys ⊆ entries.keys := by
    intro key' member'
    obtain ⟨entry', listed', rfl⟩ := List.mem_map.mp member'
    obtain ⟨entry, listed, same, -⟩ := Value.equalEntries_iff.mp equal entry' listed'
    rw [keyed.eq_of_equals listed same]
    exact List.mem_map_of_mem listed
  refine (List.subperm_of_subset keyed'.once within).perm_of_length_le (Nat.le_of_eq ?_)
  rw [keys, keys, List.length_map, List.length_map, length]

/-- Equal records have equal values under the same name. -/
theorem exists_field?_of_equalEntries (keyed' : entries'.KeyedBy kind')
    (keyed : entries.KeyedBy kind) (length : entries'.length = entries.length)
    (equal : Value.equalEntries entries' entries = true) (found : entries.field? name = some value) :
    ∃ value', entries'.field? name = some value' ∧ value'.equals value = true := by
  have there : .text name ∈ entries'.keys :=
    (keys_perm_of_equalEntries keyed' keyed length equal).mem_iff.mpr
      (List.mem_map_of_mem (mem_of_field? found))
  cases found' : entries'.field? name with
  | none => exact absurd there (field?_eq_none_iff.mp found')
  | some value' =>
    obtain ⟨entry, member, same, equal_value⟩ :=
      Value.equalEntries_iff.mp equal _ (mem_of_field? found')
    obtain ⟨key, content⟩ := entry
    cases keyed.eq_of_equals member same
    rw [field?_of_mem keyed.once member, Option.some.injEq] at found
    exact ⟨value', rfl, found ▸ equal_value⟩

end Entries

end BitLayout
