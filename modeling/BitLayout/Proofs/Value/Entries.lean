import BitLayout.Value.Basic
import Mathlib.Data.List.Basic

/-!
# Looking up fields

The keys of decoded records are texts, and a text equals no value but itself. Looking a field up is
then looking up a key in a list, a field that is new goes to the end of a record, and a record whose
fields are all new is merged by putting it behind.

## Main definitions

* `Entries.NamedBy`: a record of some of the given names
* `Entries.Lacks`: a record with none of the given names
* `Entries.Extends`: a record with all the fields of another one

## Main results

* `Entries.field?_append`, `Entries.field?_eq_none_iff`
* `Entries.insert_of_absent`, `Entries.merge_of_absent`
* `Entries.extends_append_left`, `Entries.extends_append_right`
-/

namespace BitLayout

/-- A text equals no value but itself. -/
@[simp] theorem Value.equals_text {key : Value} {name : Text} :
    key.equals (.text name) = true ↔ key = .text name := by
  cases key <;> simp [Value.equals, Value.equalNumbers?, Value.integer?]

namespace Entries

section Lookup

variable {entries front back rest : Entries} {key value : Value} {name : Text}

@[simp] theorem field?_nil (name : Text) : field? [] name = none := rfl

@[simp] theorem field?_cons_self : field? ((.text name, value) :: rest) name = some value :=
  if_pos (Value.equals_text.mpr rfl)

theorem field?_cons_of_ne (different : key ≠ .text name) :
    field? ((key, value) :: rest) name = rest.field? name :=
  if_neg (mt Value.equals_text.mp different)

theorem field?_append :
    (front ++ back).field? name = (front.field? name).or (back.field? name) := by
  induction front with
  | nil => rfl
  | cons entry rest ih =>
    obtain ⟨key, value⟩ := entry
    by_cases same : key = .text name
    · rw [same, List.cons_append, field?_cons_self, field?_cons_self, Option.some_or]
    · rw [List.cons_append, field?_cons_of_ne same, field?_cons_of_ne same, ih]

theorem field?_eq_none_iff : entries.field? name = none ↔ .text name ∉ entries.keys := by
  induction entries with
  | nil => simp [keys]
  | cons entry rest ih =>
    obtain ⟨key, value⟩ := entry
    by_cases same : key = .text name
    · simp [same, keys]
    · rw [field?_cons_of_ne same, ih]
      simp [keys, Ne.symm same]

/-- A field that is found is among the entries. -/
theorem mem_of_field? (found : entries.field? name = some value) :
    (.text name, value) ∈ entries := by
  induction entries with
  | nil => cases found
  | cons entry rest ih =>
    obtain ⟨key, first⟩ := entry
    by_cases same : key = .text name
    · rw [same, field?_cons_self] at found
      rw [same, Option.some.inj found]
      exact List.mem_cons_self
    · rw [field?_cons_of_ne same] at found
      exact List.mem_cons_of_mem _ (ih found)

@[simp] theorem keys_append : (front ++ back).keys = front.keys ++ back.keys := List.map_append

end Lookup

section Storing

variable {entries added : Entries} {value : Value} {name : Text} {names : List Text}

/-- A new field goes to the end. -/
theorem insert_of_absent (absent : .text name ∉ entries.keys) :
    entries.insert (.text name) value = entries ++ [(.text name, value)] := by
  induction entries with
  | nil => rfl
  | cons entry rest ih =>
    obtain ⟨key, first⟩ := entry
    rw [keys, List.map_cons, List.mem_cons, not_or] at absent
    obtain ⟨different, absent⟩ := absent
    rw [insert, if_neg (mt Value.equals_text.mp (Ne.symm different)), ih absent]
    rfl

theorem field?_insert_self : (entries.insert (.text name) value).field? name = some value := by
  induction entries with
  | nil => exact field?_cons_self
  | cons entry rest ih =>
    obtain ⟨key, first⟩ := entry
    rw [insert]
    by_cases same : key = .text name
    · rw [if_pos (Value.equals_text.mpr same), same, field?_cons_self]
    · rw [if_neg (mt Value.equals_text.mp same), field?_cons_of_ne same, ih]

/-- Storing a value keeps what holds of all values. -/
theorem forall_insert {P : Value → Prop} {key : Value} (old : ∀ entry ∈ entries, P entry.2)
    (new : P value) : ∀ entry ∈ entries.insert key value, P entry.2 := by
  induction entries with
  | nil => simpa [insert] using new
  | cons entry rest ih =>
    obtain ⟨first, others⟩ := List.forall_mem_cons.mp old
    rw [insert]
    split
    · exact List.forall_mem_cons.mpr ⟨new, others⟩
    · exact List.forall_mem_cons.mpr ⟨first, ih others⟩

/-- Storing the values of a record keeps what holds of all values. -/
theorem forall_merge {P : Value → Prop} (old : ∀ entry ∈ entries, P entry.2)
    (new : ∀ entry ∈ added, P entry.2) : ∀ entry ∈ entries.merge added, P entry.2 := by
  induction added generalizing entries with
  | nil => exact old
  | cons entry rest ih =>
    obtain ⟨first, others⟩ := List.forall_mem_cons.mp new
    exact ih (forall_insert old first) others

/-- The keys of a record are some of the names, each once. -/
structure NamedBy (entries : Entries) (names : List Text) : Prop where
  named : ∀ key ∈ entries.keys, ∃ name ∈ names, key = .text name
  nodup : entries.keys.Nodup

theorem NamedBy.mem (named : entries.NamedBy names) (member : .text name ∈ entries.keys) :
    name ∈ names := by
  obtain ⟨_, listed, same⟩ := named.named _ member
  exact Value.text.inj same ▸ listed

theorem namedBy_nil (names : List Text) : NamedBy [] names :=
  ⟨by simp [keys], by simp [keys]⟩

theorem namedBy_singleton : NamedBy [(.text name, value)] [name] :=
  ⟨by simp [keys], by simp [keys]⟩

theorem NamedBy.mono {more : List Text} (named : entries.NamedBy names) (within : names ⊆ more) :
    entries.NamedBy more := by
  refine ⟨fun key member => ?_, named.nodup⟩
  obtain ⟨name, listed, same⟩ := named.named key member
  exact ⟨name, within listed, same⟩

/-- Records of different names one behind the other. -/
theorem NamedBy.append {more : List Text} (named : entries.NamedBy names)
    (others : added.NamedBy more) (different : ∀ name ∈ names, name ∉ more) :
    (entries ++ added).NamedBy (names ++ more) := by
  refine ⟨fun key member => ?_, ?_⟩
  · rw [keys_append, List.mem_append] at member
    rcases member with member | member
    · obtain ⟨name, listed, same⟩ := named.named key member
      exact ⟨name, List.mem_append_left _ listed, same⟩
    · obtain ⟨name, listed, same⟩ := others.named key member
      exact ⟨name, List.mem_append_right _ listed, same⟩
  · rw [keys_append, List.nodup_append]
    -- A common key would be a name of both records.
    refine ⟨named.nodup, others.nodup, fun key member key' member' same => ?_⟩
    obtain ⟨name, listed, rfl⟩ := named.named key member
    exact different name listed (others.mem (same ▸ member'))

/-- A record with none of the names. -/
def Lacks (entries : Entries) (names : List Text) : Prop :=
  ∀ name ∈ names, .text name ∉ entries.keys

theorem lacks_nil (names : List Text) : Lacks [] names := by simp [Lacks, keys]

/-- A record still has none of the names after others have come behind. -/
theorem Lacks.append {others : List Text} (lacks : entries.Lacks others)
    (named : added.NamedBy names) (different : ∀ name ∈ names, name ∉ others) :
    (entries ++ added).Lacks others := by
  intro name listed
  rw [keys_append, List.mem_append, not_or]
  exact ⟨lacks name listed, fun member => different name (named.mem member) listed⟩

/-- A record whose fields are all new goes behind. -/
theorem merge_of_absent (named : added.NamedBy names) (absent : entries.Lacks names) :
    entries.merge added = entries ++ added := by
  induction added generalizing entries names with
  | nil => exact (List.append_nil entries).symm
  | cons entry rest ih =>
    obtain ⟨key, value⟩ := entry
    obtain ⟨name, listed, rfl⟩ := named.named key List.mem_cons_self
    obtain ⟨fresh, nodup⟩ := List.nodup_cons.mp named.nodup
    -- The first name is used up by the first field: the others have the other names.
    have later : NamedBy rest (names.filter (· ≠ name)) := by
      refine ⟨fun key member => ?_, nodup⟩
      obtain ⟨other, listed', rfl⟩ := named.named key (List.mem_cons_of_mem _ member)
      refine ⟨other, List.mem_filter.mpr ⟨listed', ?_⟩, rfl⟩
      rw [decide_eq_true_eq]
      rintro rfl
      exact fresh member
    change (entries.insert (.text name) value).merge rest = _
    rw [insert_of_absent (absent name listed), ih later, List.append_assoc, List.singleton_append]
    -- None of these is in the record, to which the first field has been added.
    intro other listed'
    obtain ⟨listed', different⟩ := List.mem_filter.mp listed'
    rw [decide_eq_true_eq] at different
    rw [keys_append, List.mem_append, not_or]
    exact ⟨absent other listed', by simpa [keys] using different⟩

end Storing

/-- Every field of a record is a field of the whole, with the same value. -/
def Extends (whole entries : Entries) : Prop :=
  ∀ name value, entries.field? name = some value → whole.field? name = some value

section Extends

variable {whole entries front back : Entries} {names : List Text}

theorem extends_refl (entries : Entries) : entries.Extends entries := fun _ _ found => found

theorem Extends.trans (first : whole.Extends entries) (second : entries.Extends front) :
    whole.Extends front :=
  fun name value found => first name value (second name value found)

theorem extends_append_left : (front ++ back).Extends front := by
  intro name value found
  rw [field?_append, found, Option.some_or]

theorem extends_append_right (named : back.NamedBy names) (absent : front.Lacks names) :
    (front ++ back).Extends back := by
  intro name value found
  have member : .text name ∈ back.keys := List.mem_map_of_mem (mem_of_field? found)
  rw [field?_append, field?_eq_none_iff.mpr (absent name (named.mem member)), Option.none_or, found]

end Extends

end Entries

end BitLayout
