import BitLayout.Proofs.Decoding.Success
import BitLayout.Proofs.Layout.Names
import BitLayout.Proofs.Scope

/-!
# Decoded records

Slots read one after another put their fields behind those of the record, in the order of the slots
and without touching what is there, as long as no name comes twice. Whatever is decoded, no integer
in it is negative, so that a count read from the bits is a count.

## Main definitions

* `Value.Natural`, `Entries.Natural`, `Scope.Natural`: nothing negative

## Main results

* `Layout.namedBy_of_decode`: the names of a decoded record
* `decodeSlots_eq_append`: slots only add their fields
* `Layout.natural_of_decode`: decoded integers are not negative
-/

namespace BitLayout

/-- No negative integer. -/
def Value.Natural (value : Value) : Prop := ∀ n, value.integer? = some n → 0 ≤ n.toInt

/-- A record without negative integers. -/
def Entries.Natural (entries : Entries) : Prop := ∀ entry ∈ entries, entry.2.Natural

/-- A scope in which no reference comes to a negative integer. -/
def Scope.Natural (scope : Scope) : Prop :=
  ∀ name n, resolveField scope name = .ok n → 0 ≤ n.toInt

section Natural

theorem Scope.natural_none : Scope.Natural none := by
  intro name n resolved
  cases resolved

theorem Entries.Natural.scope {entries : Entries} (natural : entries.Natural) :
    Scope.Natural (some entries) := by
  intro name n resolved
  obtain ⟨_, value, same, found, number⟩ := resolveField_eq_ok_iff.mp resolved
  cases same
  exact natural _ (mem_of_field? found) n number

/-- A count that is a literal of a well-formed layout or found in such a scope is one. -/
theorem Scope.Natural.resolve {scope : Scope} (natural : scope.Natural) {length : Length}
    (wellFormed : length.WellFormed) {n : Integer} (resolved : length.resolve scope = .ok n) :
    0 ≤ n.toInt := by
  cases length with
  | literal count =>
    cases resolved
    cases n with
    | number n => exact wellFormed
    | truth b => exact wellFormed.elim
  | field name => exact natural name n resolved

theorem Entries.Natural.store {record record' : Entries} (natural : record.Natural) {value : Value}
    (alone : value.Natural) (inRecord : ∀ fields, value = .dict fields → Entries.Natural fields)
    {slot : Slot} (stored : slot.store record value = some record') : record'.Natural := by
  cases slot with
  | named name layout =>
    cases stored
    exact forall_insert natural alone
  | embedded layout =>
    cases value with
    | dict fields =>
      cases stored
      exact forall_merge natural (inRecord fields rfl)
    | _ => cases stored
  | padding layout label =>
    cases stored
    exact natural
  | foreign => cases stored

theorem natural_of_decodeSlots {slots : List Slot}
    (each : ∀ slot ∈ slots, ∀ layout, slot.layout? = some layout → ∀ {scope r r' value},
      layout.decode scope r = .ok (value, r') →
      value.Natural ∧ ∀ fields, value = .dict fields → Entries.Natural fields)
    {record final : Entries} {r r' : BitReader} (natural : record.Natural)
    (read : decodeSlots slots record r = .ok (final, r')) : final.Natural := by
  induction slots generalizing record r with
  | nil =>
    cases read
    exact natural
  | cons slot rest ih =>
    obtain ⟨inSlot, inRest⟩ := List.forall_mem_cons.mp each
    obtain ⟨layout, value, r₁, record₁, same, read_first, stored, read_rest⟩ :=
      decodeSlots_cons_eq_ok_iff.mp read
    obtain ⟨alone, inRecord⟩ := inSlot layout same read_first
    exact ih inRest (natural.store alone inRecord stored) read_rest

/-- Nothing negative is decoded, neither by itself nor in a record. -/
theorem Layout.natural_of_decode {layout : Layout} {scope : Scope} {r r' : BitReader} {value : Value}
    (read : layout.decode scope r = .ok (value, r')) :
    value.Natural ∧ ∀ fields, value = .dict fields → Entries.Natural fields := by
  induction layout using Layout.induction generalizing scope r r' value with
  | abstract => cases read
  | sequence slots ih =>
    obtain ⟨record, read_slots, rfl⟩ := decode_sequence_eq_ok_iff.mp read
    -- A record is no integer itself; what counts is its fields.
    refine ⟨nofun, fun fields same => ?_⟩
    cases same
    exact natural_of_decodeSlots ih (by simp [Entries.Natural]) read_slots
  | array length element ih =>
    obtain ⟨count, items, -, -, rfl⟩ := decode_array_eq_ok_iff.mp read
    exact ⟨nofun, nofun⟩
  | branch discriminant cases otherwise ih =>
    obtain ⟨key, layout, -, chosen, read_chosen⟩ := decode_branch_eq_ok_iff.mp read
    exact ih layout (alternative_of_select chosen) read_chosen
  | bitField width | wideField width =>
    rw [decode] at read
    obtain ⟨⟨n, r₁⟩, -, same⟩ := bind_eq_ok_iff.mp read
    cases same
    refine ⟨fun m number => ?_, nofun⟩
    cases number
    exact Int.natCast_nonneg n
  | byteSlice length =>
    obtain ⟨raw, -, rfl⟩ := decode_byteSlice_eq_ok_iff.mp read
    exact ⟨nofun, nofun⟩
  | text length encoding =>
    obtain ⟨raw, t, -, -, rfl⟩ := decode_text_eq_ok_iff.mp read
    exact ⟨nofun, nofun⟩
  | padding width =>
    obtain ⟨-, -, rfl, -⟩ := decode_padding_eq_ok_iff.mp read
    exact ⟨nofun, nofun⟩

end Natural

section Names

/-- A slot whose names are new puts a record of its names behind. -/
theorem Slot.store_eq_append {slot : Slot} {layout : Layout} {record record' : Entries}
    {value : Value} (same : slot.layout? = some layout)
    (named : ∀ fields, value = .dict fields → Entries.NamedBy fields layout.mergedNames)
    (fresh : record.Lacks slot.names) (stored : slot.store record value = some record') :
    ∃ fields : Entries, record' = record ++ fields ∧ fields.NamedBy slot.names := by
  cases slot with
  | named name layout =>
    cases stored
    refine ⟨[(.text name, value)], ?_, Entries.namedBy_singleton⟩
    exact Entries.insert_of_absent (fresh name List.mem_cons_self)
  | embedded layout =>
    cases same
    cases value with
    | dict fields =>
      cases stored
      exact ⟨fields, Entries.merge_of_absent (named fields rfl) fresh, named fields rfl⟩
    | _ => cases stored
  | padding layout label =>
    cases stored
    exact ⟨[], (List.append_nil record).symm, Entries.namedBy_nil _⟩
  | foreign => cases stored

/-- Slots whose names are all new and different add a record of their names. -/
theorem decodeSlots_eq_append_of {slots : List Slot}
    (each : ∀ slot ∈ slots, ∀ layout, slot.layout? = some layout → ∀ {scope r r' fields},
      layout.decode scope r = .ok (.dict fields, r') → Entries.NamedBy fields layout.mergedNames)
    (distinct : DistinctSlots slots) {record final : Entries} {r r' : BitReader}
    (fresh : record.Lacks (namesOfSlots slots))
    (read : decodeSlots slots record r = .ok (final, r')) :
    ∃ added : Entries, final = record ++ added ∧ added.NamedBy (namesOfSlots slots) := by
  induction slots generalizing record r with
  | nil =>
    cases read
    exact ⟨[], (List.append_nil _).symm, Entries.namedBy_nil _⟩
  | cons slot rest ih =>
    obtain ⟨inSlot, inRest⟩ := List.forall_mem_cons.mp each
    obtain ⟨apart, distinct_rest⟩ := distinct
    obtain ⟨fresh_slot, fresh_rest⟩ := List.forall_mem_append.mp fresh
    obtain ⟨layout, value, r₁, record₁, same, read_first, stored, read_rest⟩ :=
      decodeSlots_cons_eq_ok_iff.mp read
    obtain ⟨fields, rfl, named⟩ := Slot.store_eq_append same
      (fun fields dict => inSlot layout same (dict ▸ read_first)) fresh_slot stored
    -- What the first slot adds is apart from the names to come, which are therefore still unused.
    obtain ⟨added, rfl, others⟩ :=
      ih inRest distinct_rest (Entries.Lacks.append fresh_rest named apart) read_rest
    exact ⟨fields ++ added, List.append_assoc _ _ _, named.append others apart⟩

/-- The fields of a decoded record have the names that its layout may merge. -/
theorem Layout.namedBy_of_decode {layout : Layout} (distinct : layout.DistinctNames) {scope : Scope}
    {r r' : BitReader} {fields : Entries} (read : layout.decode scope r = .ok (.dict fields, r')) :
    fields.NamedBy layout.mergedNames := by
  induction layout using Layout.induction generalizing scope r r' fields with
  | abstract => cases read
  | sequence slots ih =>
    obtain ⟨record, read_slots, same⟩ := decode_sequence_eq_ok_iff.mp read
    cases same
    obtain ⟨here, below⟩ := distinct
    obtain ⟨added, rfl, named⟩ := decodeSlots_eq_append_of
      (fun slot member layout same => ih slot member layout same (below.of_mem member same))
      here (Entries.lacks_nil _) read_slots
    exact named
  | array length element ih =>
    obtain ⟨count, items, -, -, same⟩ := decode_array_eq_ok_iff.mp read
    cases same
  | branch discriminant cases otherwise ih =>
    obtain ⟨key, layout, -, chosen, read_chosen⟩ := decode_branch_eq_ok_iff.mp read
    -- The alternative is not known before, so the branch may merge the names of all of them.
    have alternative := alternative_of_select chosen
    have named := ih layout alternative (distinct.alternative alternative) read_chosen
    exact named.mono alternative.mergedNames_subset
  | bitField width | wideField width =>
    rw [decode] at read
    obtain ⟨⟨n, r₁⟩, -, same⟩ := bind_eq_ok_iff.mp read
    cases same
  | byteSlice length =>
    obtain ⟨raw, -, same⟩ := decode_byteSlice_eq_ok_iff.mp read
    cases same
  | text length encoding =>
    obtain ⟨raw, t, -, -, same⟩ := decode_text_eq_ok_iff.mp read
    cases same
  | padding width =>
    obtain ⟨-, -, same, -⟩ := decode_padding_eq_ok_iff.mp read
    cases same

/-- Slots of a layout with distinct names only add a record of their names. -/
theorem decodeSlots_eq_append {slots : List Slot} (distinct : (Layout.sequence slots).DistinctNames)
    {record final : Entries} {r r' : BitReader}
    (fresh : record.Lacks (namesOfSlots slots))
    (read : decodeSlots slots record r = .ok (final, r')) :
    ∃ added : Entries, final = record ++ added ∧ added.NamedBy (namesOfSlots slots) :=
  decodeSlots_eq_append_of
    (fun _ member _ same => Layout.namedBy_of_decode (distinct.2.of_mem member same))
    distinct.1 fresh read

end Names

end BitLayout
