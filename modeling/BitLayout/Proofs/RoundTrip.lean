import BitLayout.Proofs.Bits.Transfer
import BitLayout.Proofs.Conformance
import BitLayout.Proofs.Decoding.Record
import BitLayout.Proofs.Encoding.Success
import BitLayout.Proofs.Layout.Decidable
import BitLayout.Proofs.Layout.References
import Mathlib

/-!
# Decoding what was encoded

A value that fits its layout is decoded from the bits it encodes to. The encoder resolves references
in the whole record and the decoder in the fields it has read, so the induction carries that these
agree on the names that may be referred to. An embedded layout takes its fields out of the record
around it and gives them back to it, whichever alternatives it chooses on the way.

## Main definitions

* `Value.Matches`: equal values that are the same number if they are one
* `Entries.Returns`: a record that matches the fields of the given names
* `Layout.GivesBack`, `Layout.GivesBackMerged`: decoding undoes encoding

## Main results

* `Layout.givesBack`: every layout whose references point back gives back what fits it
* `Layout.decodeBytes_of_encodeWithin`: the same for whole byte strings
-/

namespace BitLayout

/-- An equal value, and the same number if it is one. -/
structure Value.Matches (value' value : Value) : Prop where
  equal : value'.equals value = true
  number : ∀ n, value.integer? = some n → ∃ n', value'.integer? = some n' ∧ n'.toInt = n.toInt

/-- A record of the given names whose values match those of another one. -/
def Entries.Returns (fields record : Entries) (names : List Text) : Prop :=
  List.Forall₂ (fun name (entry : Value × Value) => entry.1 = .text name ∧
    ∃ value, record.field? name = some value ∧ entry.2.Matches value) names fields

namespace Entries

variable {fields more record : Entries} {names others : List Text} {name : Text}

theorem Returns.append (first : fields.Returns record names) (second : more.Returns record others) :
    (fields ++ more).Returns record (names ++ others) :=
  List.rel_append first second

theorem Returns.field? (returns : fields.Returns record names) (listed : name ∈ names) :
    ∃ value value', record.field? name = some value ∧ fields.field? name = some value' ∧
      value'.Matches value := by
  induction returns with
  | nil => cases listed
  | @cons first entry names fields head _ ih =>
    obtain ⟨key, value'⟩ := entry
    obtain ⟨rfl, value, found, matches_⟩ := head
    by_cases same : name = first
    · rw [same]
      exact ⟨value, value', found, field?_cons_self, matches_⟩
    · obtain ⟨_, _, found', found'', matches'⟩ := ih ((List.mem_cons.mp listed).resolve_left same)
      refine ⟨_, _, found', ?_, matches'⟩
      rwa [field?_cons_of_ne fun clash => same (Value.text.inj clash).symm]

/-- A record with the fields of all names and no others is equal to the one given back. -/
theorem Returns.equals (returns : fields.Returns record names)
    (noOthers : record.keys.Perm (names.map .text)) :
    (Value.dict fields).equals (.dict record) = true := by
  have length : fields.length = record.length := by
    have lengths := noOthers.length_eq
    rw [keys, List.length_map, List.length_map] at lengths
    rw [lengths, List.Forall₂.length_eq returns]
  -- Equality asks for every field of one record in the other one, and both have as many.
  have entries : Value.equalEntries fields record = true := by
    clear noOthers length
    induction returns with
    | nil => rfl
    | @cons name entry names fields head _ ih =>
      obtain ⟨key, value'⟩ := entry
      obtain ⟨rfl, value, found, matches_⟩ := head
      rw [Value.equalEntries, ih, Bool.and_true, List.any_eq_true]
      refine ⟨(.text name, value), mem_of_field? found, ?_⟩
      rw [Bool.and_eq_true]
      exact ⟨Value.equals_text.mpr rfl, matches_.equal⟩
  rw [Value.equals, length, entries]
  simp

end Entries

/-- A reader that has the given bits before it, at the bit offset where they were written. -/
structure BitReader.StartsWith (r : BitReader) (added written : List Bool) : Prop where
  valid : r.Valid
  offset : r.bitOffset = written.length % 8
  bits : added <+: r.remaining

section StartsWith

variable {r : BitReader} {added more written : List Bool}

theorem BitReader.StartsWith.within (starts : r.StartsWith added written) :
    added.length ≤ r.bitsRemaining := by
  rw [← length_remaining]
  exact starts.bits.length_le

theorem BitReader.StartsWith.take_eq (starts : r.StartsWith added written) :
    r.remaining.take added.length = added :=
  (List.prefix_iff_eq_take.mp starts.bits).symm

theorem BitReader.StartsWith.front (starts : r.StartsWith (added ++ more) written) :
    r.StartsWith added written :=
  ⟨starts.valid, starts.offset, (List.prefix_append added more).trans starts.bits⟩

/-- After the first bits come the others. -/
theorem BitReader.StartsWith.back (starts : r.StartsWith (added ++ more) written) :
    (r.advance added.length).StartsWith more (written ++ added) := by
  have offset := starts.offset
  refine ⟨starts.valid.advance starts.front.within, ?_, ?_⟩
  · rw [bitOffset_advance, offset, List.length_append, Nat.mod_add_mod]
  · obtain ⟨rest, split⟩ := starts.bits
    rw [remaining_advance, ← split, List.append_assoc, List.drop_left]
    exact List.prefix_append more rest

end StartsWith

/-- What a value that fits is written as is read back: wherever a reader finds these bits, in a scope
that knows what is referred to, it reads a matching value and moves past them. -/
def Layout.GivesBack (layout : Layout) (known : Set Text) : Prop :=
  ∀ {memory : Memory} {scope : Scope} {value : Value} {w w' : BitWriter} {written : List Bool},
    layout.Fits scope value → layout.encode memory value scope w = .ok w' → w.Holds written →
    ∃ added, w'.Holds (written ++ added) ∧
      ∀ {scope' : Scope} {r : BitReader}, r.StartsWith added written →
        scope'.Supports known scope →
        ∃ value', layout.decode scope' r = .ok (value', r.advance added.length) ∧
          value'.Matches value

/-- The same for an embedded layout, which takes the fields of some names out of a record that has
no fields of its other names. -/
def Layout.GivesBackMerged (layout : Layout) (known : Set Text) : Prop :=
  ∀ {memory : Memory} {record : Entries} {names : List Text} {w w' : BitWriter}
    {written : List Bool},
    layout.Merges record names → (∀ name ∈ layout.mergedNames, name ∉ names →
      record.field? name = none) →
    layout.encode memory (.dict record) (some record) w = .ok w' → w.Holds written →
    ∃ added, w'.Holds (written ++ added) ∧
      ∀ {scope' : Scope} {r : BitReader}, r.StartsWith added written →
        scope'.Supports known (some record) →
        ∃ fields : Entries, layout.decode scope' r = .ok (.dict fields, r.advance added.length) ∧
          fields.Returns record names

section Steps

variable {memory : Memory} {record : Entries} {names : List Text} {w w' : BitWriter}
  {written : List Bool} {known : Set Text} {scope : Scope}

theorem readSlice_of_writeSlice {kind kind' : Layout.Kind} {length : Length} {raw : List UInt8}
    {count : Integer} (refers : length.RefersTo known) (resolved : length.resolve scope = .ok count)
    (same : count.toInt = raw.length) (wrote : writeSlice kind length raw scope w = .ok w')
    (holds : w.Holds written) :
    w'.Holds (written ++ bitsOfBytes raw) ∧
      ∀ {scope' : Scope} {r : BitReader}, r.StartsWith (bitsOfBytes raw) written →
        scope'.Supports known scope →
        readSlice kind' length scope' r =
          .ok (raw, r.advance (bitsOfBytes raw).length) := by
  obtain ⟨-, wrote⟩ := writeSlice_eq_ok_iff.mp wrote
  obtain ⟨aligned, holds'⟩ := holds.of_writeBytes wrote
  refine ⟨holds', fun {scope' r} starts supports => ?_⟩
  obtain ⟨count', resolved', same'⟩ := supports.resolve refers resolved
  have within := starts.within
  have bits := starts.take_eq
  rw [length_bitsOfBytes] at within bits ⊢
  refine readSlice_eq_ok_iff.mpr ⟨⟨count', resolved', same'.trans same⟩, ?_, within, bits.symm, rfl⟩
  rw [starts.offset, ← holds.offset, aligned]

theorem decodeItems_of_encodeItems {element : Layout} (givesBack : element.GivesBack Set.univ)
    {index index' : Nat} {items : List Value} (each : ∀ item ∈ items, element.Fits none item)
    (wrote : encodeItems (fun item w => element.encode memory item none w) index items w = .ok w')
    (holds : w.Holds written) :
    ∃ added, w'.Holds (written ++ added) ∧
      ∀ {r : BitReader}, r.StartsWith added written →
        ∃ items', decodeItems (fun r => element.decode none r) items.length index' r =
            .ok (items', r.advance added.length) ∧
          Value.equalItems items' items = true := by
  induction items generalizing index index' w written with
  | nil =>
    cases wrote
    refine ⟨[], by simpa using holds, fun {r} starts => ⟨[], ?_, rfl⟩⟩
    rw [List.length_nil, List.length_nil, starts.valid.advance_zero, decodeItems]
  | cons item items ih =>
    obtain ⟨first, others⟩ := List.forall_mem_cons.mp each
    obtain ⟨w₁, wrote_first, wrote_others⟩ := encodeItems_cons_eq_ok_iff.mp wrote
    obtain ⟨added, holds₁, read_first⟩ := givesBack first wrote_first holds
    obtain ⟨more, holds', read_others⟩ := ih others wrote_others holds₁
    refine ⟨added ++ more, by rwa [← List.append_assoc], fun {r} starts => ?_⟩
    obtain ⟨item', read_item, matches_⟩ :=
      read_first starts.front (Scope.supports_none none Set.univ)
    obtain ⟨items', read_items, equal⟩ := read_others starts.back
    refine ⟨item' :: items', ?_, ?_⟩
    · rw [List.length_append, ← BitReader.advance_advance]
      exact decodeItems_succ_eq_ok_iff.mpr ⟨item', items', _, read_item, read_items, rfl⟩
    · rw [Value.equalItems, matches_.equal, equal]
      rfl

/-- The record that has been read so far supports the whole one also for the fields that a slot has
given back. -/
theorem Scope.Supports.append {slot : Slot} {partialRecord fields : Entries}
    (supports : Scope.Supports (some partialRecord) known (some record))
    (returns : fields.Returns record names) (fresh : partialRecord.Lacks slot.names)
    (named : fields.NamedBy slot.names)
    (alone : ∀ name ∈ slot.names, name ∉ names → record.field? name = none) :
    Scope.Supports (some (partialRecord ++ fields)) (known ∪ {name | name ∈ slot.names})
      (some record) := by
  intro name refers n resolved
  by_cases listed : name ∈ slot.names
  -- A name of the slot: what was found in the whole record was given back by the slot.
  · obtain ⟨_, value, same, found, number⟩ := resolveField_eq_ok_iff.mp resolved
    cases same
    have taken : name ∈ names := by
      by_contra other
      rw [alone name listed other] at found
      cases found
    obtain ⟨_, value', found', read, matches_⟩ := returns.field? taken
    rw [found] at found'
    cases found'
    obtain ⟨n', number', same⟩ := matches_.number n number
    refine ⟨n', resolveField_eq_ok_iff.mpr ⟨_, value', rfl, ?_, number'⟩, same⟩
    exact Entries.extends_append_right named fresh name value' read
  -- Any other name was known before, and its field is still there.
  · obtain ⟨n', resolved', same⟩ := supports name (refers.resolve_right listed) n resolved
    obtain ⟨_, value', same', found', number'⟩ := resolveField_eq_ok_iff.mp resolved'
    cases same'
    refine ⟨n', resolveField_eq_ok_iff.mpr ⟨_, value', rfl, ?_, number'⟩, same⟩
    exact Entries.extends_append_left name value' found'

/-- A slot puts what it gives back behind the fields that have been read. -/
theorem Slot.givesBack {slot : Slot} {layout : Layout} (same : slot.layout? = some layout)
    (wellFormed : slot.WellFormed) (distinct : layout.DistinctNames)
    (value : layout.GivesBack known) (merged : layout.GivesBackMerged known)
    (fits : slot.Fits record names)
    (alone : ∀ name ∈ slot.names, name ∉ names → record.field? name = none)
    (wrote : layout.encode memory (slot.load record) (some record) w = .ok w')
    (holds : w.Holds written) :
    ∃ added, w'.Holds (written ++ added) ∧
      ∀ {partialRecord : Entries} {r : BitReader}, r.StartsWith added written →
        partialRecord.Lacks slot.names →
        Scope.Supports (some partialRecord) known (some record) →
        ∃ value' fields, layout.decode (some partialRecord) r =
            .ok (value', r.advance added.length) ∧
          slot.store partialRecord value' = some (partialRecord ++ fields) ∧
          fields.Returns record names ∧ fields.NamedBy slot.names := by
  cases fits with
  | named found fits =>
    cases same
    rw [Slot.load, found] at wrote
    obtain ⟨added, holds', read⟩ := value fits wrote holds
    refine ⟨added, holds', fun {partialRecord r} starts fresh supports => ?_⟩
    obtain ⟨value', read_value, matches_⟩ := read starts supports
    refine ⟨value', _, read_value, ?_, .cons ⟨rfl, _, found, matches_⟩ .nil,
      Entries.namedBy_singleton⟩
    rw [Slot.store, Entries.insert_of_absent (fresh _ List.mem_cons_self)]
  | embedded merges =>
    cases same
    obtain ⟨added, holds', read⟩ := merged merges alone wrote holds
    refine ⟨added, holds', fun {partialRecord r} starts fresh supports => ?_⟩
    obtain ⟨fields, read_fields, returns⟩ := read starts supports
    have named := Layout.namedBy_of_decode distinct read_fields
    refine ⟨.dict fields, fields, read_fields, ?_, returns, named⟩
    rw [Slot.store, Entries.merge_of_absent named fresh]
  | padding =>
    cases same
    obtain ⟨isPadding, -⟩ := wellFormed
    cases layout with
    | padding width =>
      obtain ⟨added, holds', read⟩ := value .padding wrote holds
      refine ⟨added, holds', fun {partialRecord r} starts fresh supports => ?_⟩
      obtain ⟨value', read_value, -⟩ := read starts supports
      exact ⟨value', [], read_value, by rw [Slot.store, List.append_nil], .nil,
        Entries.namedBy_nil _⟩
    | _ => cases isPadding

/-- A record that has none but the taken names of some slots has none but those of the first slot and
none but those of the others. -/
theorem alone_of_cons {slot : Slot} {rest : List Slot} {others : List Text}
    (apart : ∀ name ∈ slot.names, name ∉ namesOfSlots rest) (first : slot.Fits record names)
    (later : SlotsFit rest record others)
    (alone : ∀ name ∈ namesOfSlots (slot :: rest), name ∉ names ++ others →
      record.field? name = none) :
    (∀ name ∈ slot.names, name ∉ names → record.field? name = none) ∧
      ∀ name ∈ namesOfSlots rest, name ∉ others → record.field? name = none := by
  constructor
  · intro name listed other
    refine alone name (List.mem_append_left _ listed) fun taken => ?_
    rcases List.mem_append.mp taken with taken | taken
    · exact other taken
    · exact apart name listed (later.names_subset taken)
  · intro name listed other
    refine alone name (List.mem_append_right _ listed) fun taken => ?_
    rcases List.mem_append.mp taken with taken | taken
    · exact apart name (first.names_subset taken) listed
    · exact other taken

theorem decodeSlots_of_encodeSlots {slots : List Slot}
    (each : ∀ slot ∈ slots, ∀ layout, slot.layout? = some layout → ∀ {known},
      layout.RefersBack known → layout.GivesBack known ∧ layout.GivesBackMerged known)
    (wellFormed : WellFormedSlots slots) (distinct : (Layout.sequence slots).DistinctNames)
    (refersBack : SlotsReferBack slots known) (fits : SlotsFit slots record names)
    (alone : ∀ name ∈ namesOfSlots slots, name ∉ names → record.field? name = none)
    (wrote : encodeSlots memory slots record w = .ok w') (holds : w.Holds written) :
    ∃ added, w'.Holds (written ++ added) ∧
      ∀ {partialRecord : Entries} {r : BitReader}, r.StartsWith added written →
        partialRecord.Lacks (namesOfSlots slots) →
        Scope.Supports (some partialRecord) known (some record) →
        ∃ fields : Entries, decodeSlots slots partialRecord r =
            .ok (partialRecord ++ fields, r.advance added.length) ∧
          fields.Returns record names := by
  -- Along the slots: what may be referred to grows by the names of each slot, what has been read by
  -- the fields it gives back, and the other slots are still unused in it.
  induction slots generalizing names known w written with
  | nil =>
    cases wrote
    cases fits
    refine ⟨[], by simpa using holds, fun {partialRecord r} starts _ _ => ⟨[], ?_, .nil⟩⟩
    rw [List.append_nil, List.length_nil, starts.valid.advance_zero, decodeSlots]
  | cons slot rest ih =>
    obtain ⟨inSlot, inRest⟩ := List.forall_mem_cons.mp each
    obtain ⟨layout, w₁, same, wrote_first, wrote_rest⟩ :=
      (encodeSlots_cons_eq_ok_iff wellFormed.1).mp wrote
    obtain ⟨refers_first, refers_rest⟩ := refersBack
    obtain ⟨apart, -⟩ := distinct.1
    cases fits with
    | cons first later =>
      obtain ⟨alone_first, alone_rest⟩ := alone_of_cons apart first later alone
      obtain ⟨value, merged⟩ := inSlot layout same (refers_first.of_layout? same)
      obtain ⟨added, holds₁, read_first⟩ := Slot.givesBack same wellFormed.1
        (distinct.2.of_mem List.mem_cons_self same) value merged first alone_first wrote_first holds
      obtain ⟨more, holds', read_rest⟩ := ih inRest wellFormed.2 distinct.rest refers_rest later
        alone_rest wrote_rest holds₁
      refine ⟨added ++ more, by rwa [← List.append_assoc], ?_⟩
      intro partialRecord r starts fresh supports
      obtain ⟨fresh_slot, fresh_rest⟩ := List.forall_mem_append.mp fresh
      obtain ⟨value', fields, read_value, stored, returns, named⟩ :=
        read_first starts.front fresh_slot supports
      obtain ⟨others', read_others, returns'⟩ := read_rest starts.back
        (Entries.Lacks.append fresh_rest named apart)
        (supports.append returns fresh_slot named alone_first)
      refine ⟨fields ++ others', ?_, returns.append returns'⟩
      rw [List.length_append, ← BitReader.advance_advance, ← List.append_assoc]
      exact decodeSlots_cons_eq_ok_iff.mpr
        ⟨layout, value', _, _, same, read_value, stored, read_others⟩

theorem Layout.givesBack_bitField (width : Integer) : (bitField width).GivesBack known := by
  intro memory scope value w w' written fits wrote holds
  obtain ⟨n, number, wrote⟩ := encode_bitField_eq_ok_iff.mp wrote
  obtain ⟨positive, holds'⟩ := holds.of_writeInt (BitWriter.writeInt_of_writeIntWithin wrote)
  refine ⟨_, holds', fun {scope' r} starts _ => ?_⟩
  have within := starts.within
  have bits := starts.take_eq
  rw [length_bitsOfNat] at within bits ⊢
  refine ⟨_, (decode_bitField_eq_ok_iff starts.valid).mpr ⟨positive, within, rfl, rfl⟩, ?_⟩
  cases fits with
  | bitField fits =>
    obtain ⟨_, number', nonnegative, small⟩ := fits
    rw [number] at number'
    cases number'
    obtain ⟨k, k_eq⟩ := Int.eq_ofNat_of_zero_le nonnegative
    rw [k_eq] at small bits
    have small' : k < 2 ^ width.toNat := by exact_mod_cast small
    rw [bits, lowBits_natCast small', natOfBits_bitsOfNat, Nat.mod_eq_of_lt small']
    -- A truth value comes back as the number that it equals.
    refine ⟨?_, fun m number' => ?_⟩
    · cases value with
      | int | bool =>
        cases number
        simp_all [Value.equals, Value.equalNumbers?, Value.integer?, Integer.toInt]
      | _ => cases number
    · rw [number] at number'
      cases number'
      exact ⟨.number k, rfl, k_eq.symm⟩

end Steps

namespace Layout

variable {known : Set Text}

theorem givesBack_sequence {slots : List Slot}
    (each : ∀ slot ∈ slots, ∀ layout, slot.layout? = some layout → ∀ {known},
      layout.RefersBack known → layout.GivesBack known ∧ layout.GivesBackMerged known)
    (wellFormed : WellFormedSlots slots) (distinct : (sequence slots).DistinctNames)
    (refersBack : SlotsReferBack slots ∅) :
    (sequence slots).GivesBack known ∧ (sequence slots).GivesBackMerged known := by
  -- At its start a sequence has read nothing, and nothing may be referred to.
  have nothing : ∀ record : Entries, Scope.Supports (some []) ∅ (some record) :=
    fun _ _ absurdity => absurdity.elim
  constructor
  · intro memory scope value w w' written fits wrote holds
    cases fits with
    | @sequence _ _ record names fields noOthers =>
      obtain ⟨_, same, wrote⟩ := encode_sequence_eq_ok_iff.mp wrote
      cases same
      have alone : ∀ name ∈ namesOfSlots slots, name ∉ names → record.field? name = none := by
        intro name _ other
        refine Entries.field?_eq_none_iff.mpr fun member => ?_
        obtain ⟨_, taken, same⟩ := List.mem_map.mp (noOthers.mem_iff.mp member)
        exact other (Value.text.inj same ▸ taken)
      obtain ⟨added, holds', read⟩ :=
        decodeSlots_of_encodeSlots each wellFormed distinct refersBack fields alone wrote holds
      refine ⟨added, holds', fun {scope' r} starts _ => ?_⟩
      obtain ⟨final, read_slots, returns⟩ := read starts (Entries.lacks_nil _) (nothing record)
      refine ⟨.dict final, ?_, returns.equals noOthers, nofun⟩
      exact decode_sequence_eq_ok_iff.mpr ⟨final, read_slots, rfl⟩
  · intro memory record names w w' written merges alone wrote holds
    cases merges with
    | sequence fields =>
      obtain ⟨_, same, wrote⟩ := encode_sequence_eq_ok_iff.mp wrote
      cases same
      obtain ⟨added, holds', read⟩ :=
        decodeSlots_of_encodeSlots each wellFormed distinct refersBack fields alone wrote holds
      refine ⟨added, holds', fun {scope' r} starts _ => ?_⟩
      obtain ⟨final, read_slots, returns⟩ := read starts (Entries.lacks_nil _) (nothing record)
      exact ⟨final, decode_sequence_eq_ok_iff.mpr ⟨final, read_slots, rfl⟩, returns⟩

theorem givesBack_array {length : Length} {element : Layout} (refers : length.RefersTo known)
    (givesBack : element.GivesBack Set.univ) : (array length element).GivesBack known := by
  intro memory scope value w w' written fits wrote holds
  cases fits with
  | @array _ _ _ count items resolved same each =>
    obtain ⟨_, _, listed, -, -, wrote⟩ := encode_array_eq_ok_iff.mp wrote
    cases listed
    obtain ⟨added, holds', read⟩ := decodeItems_of_encodeItems givesBack each wrote holds
    refine ⟨added, holds', fun {scope' r} starts supports => ?_⟩
    obtain ⟨count', resolved', same'⟩ := supports.resolve refers resolved
    obtain ⟨items', read_items, equal⟩ := read starts
    -- The count that was read may be spelled in another way, but it is the number of items.
    have count_eq : count'.toNat = items.length := by
      rw [Integer.toNat, same', same, Int.toNat_natCast]
    refine ⟨.list items', ?_, equal, fun n number => by cases number⟩
    exact decode_array_eq_ok_iff.mpr ⟨count', items', resolved', count_eq ▸ read_items, rfl⟩

theorem givesBack_branch {discriminant : Text} {cases : List (Integer × Layout)}
    {otherwise : Option Layout} (refers : discriminant ∈ known)
    (each : ∀ layout, Alternative cases otherwise layout →
      layout.GivesBack known ∧ layout.GivesBackMerged known) :
    (branch discriminant cases otherwise).GivesBack known ∧
      (branch discriminant cases otherwise).GivesBackMerged known := by
  constructor
  · intro memory scope value w w' written fits wrote holds
    cases fits with
    | @branch _ _ _ _ key layout _ found chosen fits =>
      obtain ⟨added, holds', read⟩ := (each layout (alternative_of_select chosen)).1 fits
        ((encode_branch_of_select found chosen).mp wrote) holds
      refine ⟨added, holds', fun {scope' r} starts supports => ?_⟩
      obtain ⟨value', read_value, matches_⟩ := read starts supports
      obtain ⟨key', found', chosen'⟩ := supports.select refers found chosen
      exact ⟨value', decode_branch_eq_ok_iff.mpr ⟨key', layout, found', chosen', read_value⟩,
        matches_⟩
  · intro memory record names w w' written merges alone wrote holds
    cases merges with
    | @branch _ _ _ _ key layout _ found chosen merges =>
      have alternative := alternative_of_select chosen
      obtain ⟨added, holds', read⟩ := (each layout alternative).2 merges
        (fun name listed => alone name (alternative.mergedNames_subset listed))
        ((encode_branch_of_select found chosen).mp wrote) holds
      refine ⟨added, holds', fun {scope' r} starts supports => ?_⟩
      obtain ⟨fields, read_fields, returns⟩ := read starts supports
      obtain ⟨key', found', chosen'⟩ := supports.select refers found chosen
      exact ⟨fields, decode_branch_eq_ok_iff.mpr ⟨key', layout, found', chosen', read_fields⟩,
        returns⟩

theorem givesBack_wideField (width : Integer) : (wideField width).GivesBack known := by
  intro memory scope value w w' written fits wrote holds
  cases fits with
  | wideField fits =>
    obtain ⟨added, holds', read⟩ :=
      givesBack_bitField width (.bitField fits) (encode_wideField_eq_ok_iff.mp wrote) holds
    refine ⟨added, holds', fun {scope' r} starts supports => ?_⟩
    obtain ⟨value', read_value, matches_⟩ := read starts supports
    exact ⟨value', decode_wideField_eq_ok_iff.mpr read_value, matches_⟩

theorem givesBack_byteSlice {length : Length} (refers : length.RefersTo known) :
    (byteSlice length).GivesBack known := by
  intro memory scope value w w' written fits wrote holds
  cases fits with
  | @byteSlice _ _ count holder raw resolved same =>
    obtain ⟨_, _, bytes, wrote⟩ := encode_byteSlice_eq_ok_iff.mp wrote
    cases bytes
    obtain ⟨holds', read⟩ := readSlice_of_writeSlice refers resolved same wrote holds
    refine ⟨_, holds', fun {scope' r} starts supports => ⟨.ofBytes raw, ?_, ?_, nofun⟩⟩
    · exact decode_byteSlice_eq_ok_iff.mpr ⟨raw, read starts supports, rfl⟩
    · simp [Value.equals]

theorem givesBack_text {length : Length} {encoding : Text} (refers : length.RefersTo known) :
    (text length encoding).GivesBack known := by
  intro memory scope value w w' written fits wrote holds
  cases fits with
  | @text _ _ _ count t raw resolved spelled same back =>
    obtain ⟨_, raw', same_text, spelled', wrote⟩ := encode_text_eq_ok_iff.mp wrote
    cases same_text
    rw [spelled] at spelled'
    cases spelled'
    obtain ⟨holds', read⟩ := readSlice_of_writeSlice refers resolved same wrote holds
    refine ⟨_, holds', fun {scope' r} starts supports => ⟨.text t, ?_, ?_, nofun⟩⟩
    · exact decode_text_eq_ok_iff.mpr ⟨raw, t, read starts supports, back, rfl⟩
    · simp [Value.equals]

theorem givesBack_padding (width : Integer) : (padding width).GivesBack known := by
  intro memory scope value w w' written fits wrote holds
  cases fits
  obtain ⟨positive, holds'⟩ := holds.of_writeInt
    (BitWriter.writeInt_of_writeIntWithin (encode_padding_eq_ok_iff.mp wrote))
  refine ⟨_, holds', fun {scope' r} starts supports => ⟨.null, ?_, rfl, nofun⟩⟩
  have within := starts.within
  rw [length_bitsOfNat] at within ⊢
  exact decode_padding_eq_ok_iff.mpr ⟨by omega, within, rfl, rfl⟩

/-- Every well-formed layout with distinct names whose references point back gives back what fits it,
by itself or out of the record around it. -/
theorem givesBack {layout : Layout} (wellFormed : layout.WellFormed)
    (distinct : layout.DistinctNames) (refersBack : layout.RefersBack known) :
    layout.GivesBack known ∧ layout.GivesBackMerged known := by
  -- Both at once, since a branch may stand by itself or be embedded, and so may what it chooses.
  -- Only sequences and branches are merged, so the second part is empty for the others.
  induction layout using Layout.induction generalizing known with
  | abstract => exact wellFormed.elim
  | sequence slots ih =>
    refine givesBack_sequence ?_ wellFormed distinct refersBack
    intro slot member layout same known refersBack
    exact ih slot member layout same (wellFormed.of_mem member same)
      (distinct.2.of_mem member same) refersBack
  | array length element ih =>
    refine ⟨givesBack_array refersBack.1 ?_, fun merges => by cases merges⟩
    exact (ih wellFormed.2 distinct.2 refersBack.2).1
  | branch discriminant cases otherwise ih =>
    refine givesBack_branch refersBack.discriminant fun layout alternative => ?_
    exact ih layout alternative (wellFormed.alternative alternative)
      (distinct.alternative alternative) (refersBack.alternative alternative)
  | bitField width => exact ⟨givesBack_bitField width, fun merges => by cases merges⟩
  | wideField width => exact ⟨givesBack_wideField width, fun merges => by cases merges⟩
  | byteSlice length => exact ⟨givesBack_byteSlice refersBack, fun merges => by cases merges⟩
  | text length encoding => exact ⟨givesBack_text refersBack, fun merges => by cases merges⟩
  | padding width => exact ⟨givesBack_padding width, fun merges => by cases merges⟩

theorem fits_telegram : telegram.Fits none (.dict telegramRecord) := by
  have count : resolveField (some telegramRecord) "count" = .ok 2 := by cbv
  have count_fits : (bitField 3).Fits (some telegramRecord) (.int 2) :=
    .bitField ⟨_, rfl, by decide, by decide⟩
  have items_fit : ∀ item ∈ [Value.int 10, Value.int 11], (bitField 4).Fits none item := by
    intro item member
    simp only [List.mem_cons, List.not_mem_nil, or_false] at member
    rcases member with rfl | rfl <;> exact .bitField ⟨_, rfl, by decide, by decide⟩
  have spelled : EncodingName.encode "ascii" "C" = .ok [0x43] := by cbv
  have unit_fits : (text (.literal 1) "ascii").Fits (some telegramRecord) (.text "C") :=
    .text rfl spelled rfl (by cbv)
  have chosen : select [(2, sequence [.named "unit" (.text (.literal 1) "ascii")])] none 2 =
      some (sequence [.named "unit" (.text (.literal 1) "ascii")]) := rfl
  refine .sequence (.cons (.named (by cbv) count_fits) (.cons .padding (.cons
    (.named (by cbv) (.array count rfl items_fit)) (.cons (.embedded (.branch count chosen
      (.sequence (.cons (.named (by cbv) unit_fits) .nil)))) .nil)))) ?_
  exact .refl _

/-- Decoding the bytes that a fitting value encodes to gives an equal value, with nothing left over.
It does not matter how much room there was for encoding. -/
theorem decodeBytes_of_encodeWithin {layout : Layout} (wellFormed : layout.WellFormed)
    (distinct : layout.DistinctNames) (refersBack : layout.RefersBack Set.univ) {value : Value}
    (fits : layout.Fits none value) {memory : Memory} {bytes : List UInt8}
    (wrote : layout.encodeWithin memory value = .ok bytes) :
    ∃ value', layout.decodeBytes bytes true = .ok value' ∧ value'.equals value = true := by
  obtain ⟨w, wrote_bits, rfl⟩ := map_eq_ok_iff.mp wrote
  obtain ⟨added, holds, read⟩ :=
    (givesBack wellFormed distinct refersBack).1 fits wrote_bits BitWriter.holds_empty
  rw [List.nil_append] at holds
  have starts : (BitReader.ofBytes w.toBytes).StartsWith added [] := by
    refine ⟨BitReader.valid_ofBytes w.toBytes, rfl, ?_⟩
    rw [holds.remaining_ofBytes]
    exact List.prefix_append _ _
  obtain ⟨value', read_value, matches_⟩ := read starts (Scope.supports_none none Set.univ)
  refine ⟨value', bind_eq_ok_iff.mpr ⟨_, read_value, ?_⟩, matches_.equal⟩
  simp [holds.trailingBytes_eq_zero]

theorem decodeBytes_of_encodeWithin_telegram :
    telegram.WellFormed ∧ telegram.DistinctNames ∧ telegram.RefersBack Set.univ ∧
      telegram.Fits none (.dict telegramRecord) ∧
      telegram.encodeWithin .ordinary (.dict telegramRecord) = .ok [0x40, 0xAB, 0x43] ∧
      ∃ value, telegram.decodeBytes [0x40, 0xAB, 0x43] true = .ok value ∧
        value.equals (.dict telegramRecord) = true := by
  have refersBack : telegram.RefersBack Set.univ :=
    ⟨trivial, trivial, ⟨by simp [Length.RefersTo, Slot.names], trivial⟩,
      ⟨by simp [Slot.names], ⟨⟨trivial, trivial⟩, trivial⟩, trivial⟩, trivial⟩
  have wrote : telegram.encodeWithin .ordinary (.dict telegramRecord) = .ok [0x40, 0xAB, 0x43] := by
    cbv
  exact ⟨wellFormed_telegram, distinctNames_telegram, refersBack, fits_telegram, wrote,
    decodeBytes_of_encodeWithin wellFormed_telegram distinctNames_telegram refersBack fits_telegram
      wrote⟩

end Layout

end BitLayout
