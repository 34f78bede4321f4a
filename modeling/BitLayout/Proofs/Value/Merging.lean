import BitLayout.Proofs.Value.Entries

/-!
# Records that are stored into records

Storing the fields of a record one by one into another one is the same as storing the finished
record, as long as its keys are texts and none comes twice. The order of the keys is the same too: a
key keeps the place where it came first.

## Main definitions

* `Entries.KeyedBy`: keys that are texts of one kind, each once

## Main results

* `Entries.KeyedBy.insert`, `Entries.KeyedBy.merge`: storing keeps this
* `Entries.KeyedBy.merge_insert`, `Entries.KeyedBy.merge_merge`: storing fields or the record that
  they make
* `Entries.KeyedBy.extends_merge`: the fields that were stored are found
-/

namespace BitLayout

namespace Entries

/-- Keys that are texts of one kind, each once. -/
structure KeyedBy (entries : Entries) (kind : Text → Prop) : Prop where
  named : ∀ key ∈ entries.keys, ∃ name, key = .text name ∧ kind name
  once : entries.keys.Nodup

variable {entries rest parent fields : Entries} {key value old : Value} {name other : Text}
  {kind : Text → Prop}

section Insert

theorem insert_cons_self :
    insert ((.text name, old) :: rest) (.text name) value = (.text name, value) :: rest :=
  if_pos (Value.equals_text.mpr rfl)

theorem insert_cons_of_ne (different : key ≠ .text name) :
    insert ((key, old) :: rest) (.text name) value = (key, old) :: rest.insert (.text name) value :=
  if_neg (mt Value.equals_text.mp different)

theorem field?_insert_of_ne (different : name ≠ other) :
    (entries.insert (.text name) value).field? other = entries.field? other := by
  have apart : Value.text name ≠ .text other := fun same => different (Value.text.inj same)
  induction entries with
  | nil => exact field?_cons_of_ne apart
  | cons entry rest ih =>
    obtain ⟨key, first⟩ := entry
    by_cases same : key = .text name
    · rw [same, insert_cons_self, field?_cons_of_ne apart, field?_cons_of_ne apart]
    · rw [insert_cons_of_ne same]
      by_cases found : key = .text other
      · rw [found, field?_cons_self, field?_cons_self]
      · rw [field?_cons_of_ne found, field?_cons_of_ne found, ih]

theorem mem_keys_insert_self : .text name ∈ (entries.insert (.text name) value).keys := by
  by_contra absent
  have found : (entries.insert (.text name) value).field? name = some value := field?_insert_self
  rw [field?_eq_none_iff.mpr absent] at found
  cases found

theorem mem_keys_insert (member : .text name ∈ entries.keys) :
    .text name ∈ (entries.insert (.text other) value).keys := by
  by_cases same : other = name
  · rw [same]
    exact mem_keys_insert_self
  · by_contra absent
    have gone := field?_eq_none_iff.mpr absent
    rw [field?_insert_of_ne same, field?_eq_none_iff] at gone
    exact gone member

/-- A key that is there keeps its place. -/
theorem keys_insert_of_mem (member : .text name ∈ entries.keys) :
    (entries.insert (.text name) value).keys = entries.keys := by
  induction entries with
  | nil => cases member
  | cons entry rest ih =>
    obtain ⟨key, first⟩ := entry
    by_cases same : key = .text name
    · rw [same, insert_cons_self]
      rfl
    · have later : .text name ∈ keys rest :=
        (List.mem_cons.mp member).resolve_left (Ne.symm same)
      rw [insert_cons_of_ne same]
      exact congrArg (key :: ·) (ih later)

/-- The last value stored under a key counts. -/
theorem insert_insert_self :
    (entries.insert (.text name) old).insert (.text name) value =
      entries.insert (.text name) value := by
  induction entries with
  | nil => exact insert_cons_self
  | cons entry rest ih =>
    obtain ⟨key, first⟩ := entry
    by_cases same : key = .text name
    · rw [same, insert_cons_self, insert_cons_self, insert_cons_self]
    · rw [insert_cons_of_ne same, insert_cons_of_ne same, insert_cons_of_ne same, ih]

/-- Another value under a key that is there does not interfere with other keys. -/
theorem insert_comm_of_mem (member : .text name ∈ entries.keys) (different : name ≠ other) :
    (entries.insert (.text other) old).insert (.text name) value =
      (entries.insert (.text name) value).insert (.text other) old := by
  have apart : Value.text name ≠ .text other := fun same => different (Value.text.inj same)
  induction entries with
  | nil => cases member
  | cons entry rest ih =>
    obtain ⟨key, first⟩ := entry
    by_cases same : key = .text name
    · rw [same, insert_cons_of_ne apart, insert_cons_self, insert_cons_self, insert_cons_of_ne apart]
    · have later : .text name ∈ keys rest :=
        (List.mem_cons.mp member).resolve_left (Ne.symm same)
      by_cases found : key = .text other
      · rw [found, insert_cons_self, insert_cons_of_ne (Ne.symm apart),
          insert_cons_of_ne (Ne.symm apart), insert_cons_self]
      · rw [insert_cons_of_ne found, insert_cons_of_ne same, insert_cons_of_ne same,
          insert_cons_of_ne found, ih later]

end Insert

theorem merge_cons : parent.merge ((key, value) :: rest) = (parent.insert key value).merge rest :=
  rfl

/-- Another value under a key that is there may be stored before other fields or after them. -/
theorem insert_merge_of_mem (there : .text name ∈ entries.keys) (fresh : .text name ∉ fields.keys)
    (named : ∀ key ∈ fields.keys, ∃ other, key = .text other) :
    (entries.merge fields).insert (.text name) value =
      (entries.insert (.text name) value).merge fields := by
  induction fields generalizing entries with
  | nil => rfl
  | cons entry rest ih =>
    obtain ⟨key, content⟩ := entry
    obtain ⟨other, same⟩ := named key List.mem_cons_self
    cases same
    rw [keys, List.map_cons, List.mem_cons, not_or] at fresh
    have different : name ≠ other := fun same => fresh.1 (congrArg Value.text same)
    rw [merge_cons, merge_cons, ih (mem_keys_insert there) fresh.2
      (fun key member => named key (List.mem_cons_of_mem _ member)),
      insert_comm_of_mem there different]

theorem keyedBy_nil (kind : Text → Prop) : KeyedBy [] kind := ⟨by simp [keys], by simp [keys]⟩

namespace KeyedBy

theorem head (keyed : KeyedBy ((key, value) :: rest) kind) :
    ∃ name, key = .text name ∧ kind name ∧ .text name ∉ rest.keys := by
  obtain ⟨name, rfl, holds⟩ := keyed.named key List.mem_cons_self
  exact ⟨name, rfl, holds, (List.nodup_cons.mp keyed.once).1⟩

theorem tail (keyed : KeyedBy ((key, value) :: rest) kind) : rest.KeyedBy kind :=
  ⟨fun key member => keyed.named key (List.mem_cons_of_mem _ member),
    (List.nodup_cons.mp keyed.once).2⟩

theorem mono {wider : Text → Prop} (keyed : entries.KeyedBy kind)
    (implies : ∀ name, kind name → wider name) : entries.KeyedBy wider := by
  refine ⟨fun key member => ?_, keyed.once⟩
  obtain ⟨name, same, holds⟩ := keyed.named key member
  exact ⟨name, same, implies name holds⟩

/-- The keys after a value was stored are those before and the new one. -/
theorem insert (keyed : entries.KeyedBy kind) (holds : kind name) :
    (entries.insert (.text name) value).KeyedBy kind := by
  by_cases there : .text name ∈ entries.keys
  · have keys_eq : (entries.insert (.text name) value).keys = entries.keys :=
      keys_insert_of_mem there
    exact ⟨keys_eq ▸ keyed.named, keys_eq ▸ keyed.once⟩
  · rw [insert_of_absent there]
    refine ⟨fun key member => ?_, ?_⟩
    · rw [keys_append, List.mem_append] at member
      rcases member with member | member
      · exact keyed.named key member
      · exact ⟨name, List.mem_singleton.mp member, holds⟩
    · rw [keys_append]
      refine List.nodup_append.mpr ⟨keyed.once, List.pairwise_singleton _ _, ?_⟩
      rintro key member _ listed rfl
      rw [List.mem_singleton.mp listed] at member
      exact there member

theorem merge (keyed : entries.KeyedBy kind) (stored : fields.KeyedBy kind) :
    (entries.merge fields).KeyedBy kind := by
  induction fields generalizing entries with
  | nil => exact keyed
  | cons entry rest ih =>
    obtain ⟨name, same, holds, -⟩ := stored.head
    obtain ⟨key, value⟩ := entry
    cases same
    exact ih (keyed.insert holds) stored.tail

theorem exists_names (keyed : entries.KeyedBy kind) :
    ∃ names : List Text, entries.keys = names.map .text := by
  induction entries with
  | nil => exact ⟨[], rfl⟩
  | cons entry rest ih =>
    obtain ⟨names, same⟩ := ih keyed.tail
    obtain ⟨name, key, -⟩ := keyed.head
    exact ⟨name :: names, congrArg₂ List.cons key same⟩

/-- A record from such fields is these fields. -/
theorem merge_nil (keyed : entries.KeyedBy kind) : Entries.merge [] entries = entries := by
  obtain ⟨names, same⟩ := keyed.exists_names
  have named : entries.NamedBy names := by
    refine ⟨fun key member => ?_, keyed.once⟩
    rw [same] at member
    obtain ⟨name, listed, rfl⟩ := List.mem_map.mp member
    exact ⟨name, listed, rfl⟩
  exact (merge_of_absent named (lacks_nil _)).trans (List.nil_append entries)

/-- Storing a field in a record that is then stored is storing the field after the record. -/
theorem merge_insert (keyed : entries.KeyedBy kind) :
    parent.merge (entries.insert (.text name) value) =
      (parent.merge entries).insert (.text name) value := by
  induction entries generalizing parent with
  | nil => rfl
  | cons entry rest ih =>
    obtain ⟨key, old⟩ := entry
    obtain ⟨first, rfl, -, fresh⟩ := keyed.head
    by_cases same : first = name
    · subst same
      have named : ∀ key ∈ keys rest, ∃ other, key = .text other := fun key member =>
        (keyed.tail.named key member).imp fun _ => And.left
      -- The key has its place in the parent already, and the others are different from it.
      rw [insert_cons_self, merge_cons, merge_cons,
        insert_merge_of_mem mem_keys_insert_self fresh named, insert_insert_self]
    · have apart : Value.text first ≠ .text name := fun equal => same (Value.text.inj equal)
      rw [insert_cons_of_ne apart, merge_cons, merge_cons, ih keyed.tail]

/-- Storing a record in a record that is then stored is storing one after the other. -/
theorem merge_merge (keyed : entries.KeyedBy kind) (stored : fields.KeyedBy kind) :
    parent.merge (entries.merge fields) = (parent.merge entries).merge fields := by
  induction fields generalizing entries with
  | nil => rfl
  | cons entry rest ih =>
    obtain ⟨name, same, holds, -⟩ := stored.head
    obtain ⟨key, value⟩ := entry
    cases same
    rw [merge_cons, merge_cons, ih (keyed.insert holds) stored.tail, keyed.merge_insert]

theorem field?_merge (keyed : entries.KeyedBy kind) :
    (parent.merge entries).field? name = (entries.field? name).or (parent.field? name) := by
  induction entries generalizing parent with
  | nil => rfl
  | cons entry rest ih =>
    obtain ⟨key, value⟩ := entry
    obtain ⟨first, rfl, -, fresh⟩ := keyed.head
    rw [merge_cons, ih keyed.tail]
    by_cases same : first = name
    · subst same
      rw [field?_eq_none_iff.mpr fresh, field?_insert_self, field?_cons_self]
      rfl
    · have apart : Value.text first ≠ .text name := fun equal => same (Value.text.inj equal)
      rw [field?_insert_of_ne same, field?_cons_of_ne apart]

/-- A record in which the fields of another one were stored has them all. -/
theorem extends_merge (keyed : entries.KeyedBy kind) : (parent.merge entries).Extends entries := by
  intro name value found
  rw [keyed.field?_merge, found, Option.some_or]

end KeyedBy

end Entries

end BitLayout
