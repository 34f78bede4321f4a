import BitLayout.Proofs.Decoding.Extension
import BitLayout.Proofs.Embedding
import BitLayout.Proofs.Layout.Decidable
import BitLayout.Proofs.Visits
import Mathlib

/-!
# Lists that the data has room for

A list is read item by item, whatever count the data asks for. What bounds the count are the reads of
the items: each takes at least the bits that its layout needs in any case, so the bits that are left
where the list begins have to be enough for so many items. A count that asks for more cannot be
answered by a value.

## Main definitions

* `Layout.leastBits`: the least number of bits that a layout takes
* `Reading.Succeeds`: a place at which a layout is read, with no more bits behind it than some number

## Main results

* `Layout.leastBits_le_of_decode`: every reading takes at least so many bits
* `Reading.Succeeds.walk`: what a successful reading comes to is read
* `Layout.lists_within_data`: the lists that are read, and the counts that are refused
-/

namespace BitLayout

/-- The least count that a length may come to. -/
def Length.leastCount : Length → Nat
  | .literal count => count.toNat
  | .field _ => 0

mutual

/-- The least number of bits that a layout takes. A branch takes the least that one of its
alternatives takes, and none if there is no alternative. -/
def Layout.leastBits : Layout → Nat
  | .abstract => 0
  | .sequence slots => leastBitsOfSlots slots
  | .array length element => length.leastCount * element.leastBits
  | .branch _ cases none => (leastBitsOfCases cases).min?.getD 0
  | .branch _ cases (some layout) => (leastBitsOfCases cases ++ [layout.leastBits]).min?.getD 0
  | .bitField width => width.toNat
  | .wideField width => width.toNat
  | .byteSlice length => 8 * length.leastCount
  | .text length _ => 8 * length.leastCount
  | .padding width => width.toNat

/-- The least number of bits that slots take one after another. -/
def leastBitsOfSlots : List Slot → Nat
  | [] => 0
  | .named _ layout :: rest => layout.leastBits + leastBitsOfSlots rest
  | .embedded layout :: rest => layout.leastBits + leastBitsOfSlots rest
  | .padding layout _ :: rest => layout.leastBits + leastBitsOfSlots rest
  | .foreign .. :: rest => leastBitsOfSlots rest

/-- The least numbers of bits that the cases of a branch take. -/
def leastBitsOfCases : List (Integer × Layout) → List Nat
  | [] => []
  | (_, layout) :: rest => layout.leastBits :: leastBitsOfCases rest

end

section Layouts

variable {discriminant : Text} {cases : List (Integer × Layout)} {otherwise : Option Layout}
  {layout : Layout}

theorem leastBitsOfSlots_cons {slot : Slot} {rest : List Slot} (same : slot.layout? = some layout) :
    leastBitsOfSlots (slot :: rest) = layout.leastBits + leastBitsOfSlots rest := by
  cases slot with
  | named | embedded | padding =>
    cases same
    rw [leastBitsOfSlots]
  | foreign => cases same

theorem mem_leastBitsOfCases {key : Integer} (member : (key, layout) ∈ cases) :
    layout.leastBits ∈ leastBitsOfCases cases := by
  induction cases with
  | nil => cases member
  | cons entry rest ih =>
    rcases List.mem_cons.mp member with rfl | later
    · exact List.mem_cons_self
    · exact List.mem_cons_of_mem _ (ih later)

/-- A branch needs no more bits than any of its alternatives. -/
theorem Layout.Alternative.leastBits_le (alternative : Alternative cases otherwise layout) :
    (Layout.branch discriminant cases otherwise).leastBits ≤ layout.leastBits := by
  cases otherwise with
  | none =>
    obtain ⟨key, member⟩ := alternative.resolve_right nofun
    rw [leastBits]
    exact List.min?_getD_le_of_mem (mem_leastBitsOfCases member)
  | some default =>
    rw [leastBits]
    apply List.min?_getD_le_of_mem
    rw [List.mem_append, List.mem_singleton]
    rcases alternative with ⟨key, member⟩ | same
    · exact Or.inl (mem_leastBitsOfCases member)
    · exact Or.inr (congrArg leastBits (Option.some.inj same.symm))

end Layouts

section Decoding

variable {scope : Scope} {r r' : BitReader} {value : Value}

theorem Length.leastCount_le {length : Length} {count : Integer}
    (resolved : length.resolve scope = .ok count) : length.leastCount ≤ count.toNat := by
  cases length with
  | literal =>
    cases resolved
    exact le_refl _
  | field name => exact Nat.zero_le _

theorem leastCount_le_of_readSlice {kind : Layout.Kind} {length : Length} {raw : List UInt8}
    (read : readSlice kind length scope r = .ok (raw, r')) :
    r.position + 8 * length.leastCount ≤ r'.position := by
  obtain ⟨⟨count, resolved, same⟩, -, -, -, rfl⟩ := readSlice_eq_ok_iff.mp read
  have least := Length.leastCount_le resolved
  rw [Integer.toNat, same, Int.toNat_natCast] at least
  rw [BitReader.position_advance]
  omega

/-- Items that take at least so many bits each. -/
theorem leastBits_le_of_decodeItems {item : BitReader → Except Failure (Value × BitReader)}
    {bits : Nat}
    (each : ∀ {r r' value}, r.Valid → item r = .ok (value, r') →
      r'.Valid ∧ r.position + bits ≤ r'.position)
    {count index : Nat} {items : List Value} (valid : r.Valid)
    (read : decodeItems item count index r = .ok (items, r')) :
    r.position + count * bits ≤ r'.position := by
  induction count generalizing index r items with
  | zero =>
    cases read
    omega
  | succ count ih =>
    obtain ⟨first, others, r₁, read_first, read_others, -⟩ := decodeItems_succ_eq_ok_iff.mp read
    obtain ⟨valid₁, moved⟩ := each valid read_first
    have later := ih valid₁ read_others
    rw [Nat.succ_mul]
    omega

theorem leastBits_le_of_decodeSlots {slots : List Slot}
    (each : ∀ slot ∈ slots, ∀ layout, slot.layout? = some layout → ∀ {scope r r' value}, r.Valid →
      layout.decode scope r = .ok (value, r') → r.position + layout.leastBits ≤ r'.position)
    {record final : Entries} (valid : r.Valid)
    (read : decodeSlots slots record r = .ok (final, r')) :
    r.position + leastBitsOfSlots slots ≤ r'.position := by
  induction slots generalizing record r with
  | nil =>
    cases read
    exact le_refl _
  | cons slot rest ih =>
    obtain ⟨inSlot, inRest⟩ := List.forall_mem_cons.mp each
    obtain ⟨layout, value, r₁, record₁, same, read_first, -, read_rest⟩ :=
      decodeSlots_cons_eq_ok_iff.mp read
    have moved := inSlot layout same valid read_first
    have later := ih inRest ((Layout.passes_of_decode valid read_first).valid valid) read_rest
    rw [leastBitsOfSlots_cons same]
    omega

/-- Every reading takes at least the least number of bits. -/
theorem Layout.leastBits_le_of_decode {layout : Layout} (valid : r.Valid)
    (read : layout.decode scope r = .ok (value, r')) :
    r.position + layout.leastBits ≤ r'.position := by
  induction layout using Layout.induction generalizing scope r r' value with
  | abstract => cases read
  | sequence slots ih =>
    obtain ⟨record, read_slots, -⟩ := decode_sequence_eq_ok_iff.mp read
    exact leastBits_le_of_decodeSlots ih valid read_slots
  | array length element ih =>
    obtain ⟨count, items, resolved, read_items, -⟩ := decode_array_eq_ok_iff.mp read
    have moved := leastBits_le_of_decodeItems (fun valid read =>
      ⟨(passes_of_decode valid read).valid valid, ih valid read⟩) valid read_items
    have least := Nat.mul_le_mul_right element.leastBits (Length.leastCount_le resolved)
    rw [leastBits]
    omega
  | branch discriminant cases otherwise ih =>
    obtain ⟨key, layout, -, chosen, read_chosen⟩ := decode_branch_eq_ok_iff.mp read
    have alternative := alternative_of_select chosen
    have least : (branch discriminant cases otherwise).leastBits ≤ layout.leastBits :=
      alternative.leastBits_le
    have moved := ih layout alternative valid read_chosen
    omega
  | bitField width =>
    obtain ⟨-, -, -, rfl⟩ := (decode_bitField_eq_ok_iff valid).mp read
    rw [BitReader.position_advance, leastBits]
  | wideField width =>
    rw [decode_wideField_eq_ok_iff] at read
    obtain ⟨-, -, -, rfl⟩ := (decode_bitField_eq_ok_iff valid).mp read
    rw [BitReader.position_advance, leastBits]
  | byteSlice length =>
    obtain ⟨raw, read_raw, -⟩ := decode_byteSlice_eq_ok_iff.mp read
    exact leastCount_le_of_readSlice read_raw
  | text length encoding =>
    obtain ⟨raw, t, read_raw, -, -⟩ := decode_text_eq_ok_iff.mp read
    exact leastCount_le_of_readSlice read_raw
  | padding width =>
    obtain ⟨-, -, -, rfl⟩ := decode_padding_eq_ok_iff.mp read
    rw [BitReader.position_advance, leastBits]

/-- Behind what is read there are no more bits than before. -/
theorem Layout.bitsRemaining_le_of_decode {layout : Layout} (valid : r.Valid)
    (read : layout.decode scope r = .ok (value, r')) :
    r'.Valid ∧ r'.bitsRemaining ≤ r.bitsRemaining := by
  have passes := passes_of_decode valid read
  refine ⟨passes.valid valid, ?_⟩
  rw [passes.moved, BitReader.bitsRemaining_advance]
  exact Nat.sub_le _ _

/-- The items of an array fit in the bits that are left where they begin. -/
theorem Layout.items_within_of_decode {length : Length} {element : Layout} (valid : r.Valid)
    (read : (array length element).decode scope r = .ok (value, r')) :
    ∃ count items, length.resolve scope = .ok count ∧ value = .list items ∧
      items.length = count.toNat ∧ items.length * element.leastBits ≤ r.bitsRemaining := by
  obtain ⟨within, moved⟩ := passes_of_decode valid read
  obtain ⟨count, items, resolved, read_items, rfl⟩ := decode_array_eq_ok_iff.mp read
  have taken := leastBits_le_of_decodeItems (fun valid read =>
    ⟨(passes_of_decode valid read).valid valid, leastBits_le_of_decode valid read⟩) valid read_items
  rw [moved, BitReader.position_advance] at taken
  have length_eq := length_of_decodeItems read_items
  refine ⟨count, items, resolved, rfl, length_eq, ?_⟩
  rw [length_eq]
  omega

/-- Among items that are read, the next one behind some of them is read. -/
theorem exists_item_of_decodeItems {item : BitReader → Except Failure (Value × BitReader)}
    {count index start : Nat} {before items : List Value} {r'' : BitReader} (there : index < count)
    (read_before : decodeItems item index start r = .ok (before, r'))
    (read : decodeItems item count start r = .ok (items, r'')) :
    ∃ value after, item r' = .ok (value, after) := by
  induction index generalizing count start r before items with
  | zero =>
    cases read_before
    obtain ⟨count, rfl⟩ := Nat.exists_eq_add_of_lt there
    obtain ⟨first, others, r₁, read_first, -, -⟩ := decodeItems_succ_eq_ok_iff.mp read
    exact ⟨first, r₁, read_first⟩
  | succ index ih =>
    obtain ⟨count, rfl⟩ := Nat.exists_eq_succ_of_ne_zero (Nat.ne_zero_of_lt there)
    obtain ⟨first, others, r₁, read_first, read_others, -⟩ := decodeItems_succ_eq_ok_iff.mp read
    obtain ⟨_, others', _, read_first', read_others', -⟩ :=
      decodeItems_succ_eq_ok_iff.mp read_before
    cases read_first.symm.trans read_first'
    exact ih (Nat.lt_of_succ_lt_succ there) read_others' read_others

end Decoding

namespace Reading

/-- A layout is read at its place, behind which there are at most as many bits as given. -/
structure Succeeds (reading : Reading) (limit : Nat) : Prop where
  valid : reading.reader.Valid
  within : reading.reader.bitsRemaining ≤ limit
  read : ∃ value after, reading.layout.decode reading.scope reading.reader = .ok (value, after)

variable {reading part : Reading} {limit : Nat}

/-- Where a successful reading goes on, it succeeds. -/
theorem Succeeds.step {move : Step} (succeeds : reading.Succeeds limit)
    (hands : reading.Hands move part) : part.Succeeds limit := by
  obtain ⟨valid, within, value, after, read⟩ := succeeds
  cases hands with
  | @slot slots scope r r' index slot layout record there same before =>
    -- The slots in front are a sequence that is read.
    have read_front : (Layout.sequence (slots.take index)).decode scope r =
        .ok (.dict record, r') := Layout.decode_sequence_eq_ok_iff.mpr ⟨record, before, rfl⟩
    obtain ⟨valid', less⟩ := Layout.bitsRemaining_le_of_decode valid read_front
    refine ⟨valid', less.trans within, ?_⟩
    obtain ⟨all, read_slots, -⟩ := Layout.decode_sequence_eq_ok_iff.mp read
    rw [eq_take_append_of_getElem? there] at read_slots
    obtain ⟨_, _, before', read_back⟩ := decodeSlots_append_eq_ok_iff.mp read_slots
    cases before.symm.trans before'
    obtain ⟨_, value', r₁, record₁, same', read_slot, -, -⟩ := decodeSlots_cons_eq_ok_iff.mp read_back
    cases same.symm.trans same'
    exact ⟨value', r₁, read_slot⟩
  | @item length element scope r r' count index items resolved there before =>
    -- So are the items in front an array.
    have read_front : (Layout.array (.literal (.number index)) element).decode none r =
        .ok (.list items, r') := Layout.decode_array_eq_ok_iff.mpr ⟨_, items, rfl, before, rfl⟩
    obtain ⟨valid', less⟩ := Layout.bitsRemaining_le_of_decode valid read_front
    refine ⟨valid', less.trans within, ?_⟩
    obtain ⟨count', all, resolved', read_items, -⟩ := Layout.decode_array_eq_ok_iff.mp read
    cases resolved.symm.trans resolved'
    exact exists_item_of_decodeItems there before read_items
  | alternative found chosen =>
    obtain ⟨key, layout, found', chosen', read_chosen⟩ := Layout.decode_branch_eq_ok_iff.mp read
    cases found.symm.trans found'
    cases chosen.symm.trans chosen'
    exact ⟨valid, within, value, after, read_chosen⟩

/-- Wherever a successful reading comes, it succeeds. -/
theorem Succeeds.walk {steps : List Step} (succeeds : reading.Succeeds limit)
    (walk : Walk Hands reading steps part) : part.Succeeds limit := by
  induction walk with
  | here => exact succeeds
  | step first _ ih => exact ih (succeeds.step first)

end Reading

namespace Layout

/-- A count in the data cannot claim more items than the data has room for. A reading that succeeds
takes at least the least number of bits of its layout, and each list that it comes to has at most as
many items as fit, by the least number of bits of one, in the bits that are left there. So where items
take bits in any case, a field that counts more of them than there are bits left makes the reading
fail. -/
theorem lists_within_data (layout : Layout) (data : List UInt8) :
    (∀ strict value, layout.decodeBytes data strict = .ok value →
      ∃ r, layout.read data = .ok (value, r) ∧
        layout.leastBits ≤ r.position ∧ r.position ≤ 8 * data.length ∧
        ∀ steps length element scope before,
          Walk Reading.Hands ⟨layout, none, .ofBytes data⟩ steps
            ⟨.array length element, scope, before⟩ →
          ∃ items after, (array length element).decode scope before = .ok (.list items, after) ∧
            items.length * element.leastBits ≤ before.bitsRemaining ∧
            before.bitsRemaining ≤ 8 * data.length) ∧
    ∀ steps name element scope before count,
      Walk Reading.Hands ⟨layout, none, .ofBytes data⟩ steps
        ⟨.array (.field name) element, scope, before⟩ →
      resolveField scope name = .ok count → 1 ≤ element.leastBits →
      before.bitsRemaining < count.toInt →
      ∀ strict, ∃ failure, layout.decodeBytes data strict = .error failure := by
  have valid := BitReader.valid_ofBytes data
  have start {value r} (read : layout.read data = .ok (value, r)) :
      Reading.Succeeds ⟨layout, none, .ofBytes data⟩ (8 * data.length) :=
    ⟨valid, (BitReader.bitsRemaining_ofBytes data).le, value, r, read⟩
  constructor
  · intro strict value decoded
    obtain ⟨r, read⟩ := read_of_decodeBytes decoded
    refine ⟨r, read, ?_, position_le_of_read read, ?_⟩
    · simpa using leastBits_le_of_decode valid read
    · intro steps length element scope before walk
      obtain ⟨valid', within, value', after, read_array⟩ := (start read).walk walk
      obtain ⟨-, items, -, rfl, -, fits⟩ := items_within_of_decode valid' read_array
      exact ⟨items, after, read_array, fits, within⟩
  · intro steps name element scope before count walk resolved positive more strict
    cases decoded : layout.decodeBytes data strict with
    | error failure => exact ⟨failure, rfl⟩
    | ok value =>
      obtain ⟨r, read⟩ := read_of_decodeBytes decoded
      obtain ⟨valid', -, value', after, read_array⟩ := (start read).walk walk
      obtain ⟨count', items, resolved', rfl, length_eq, fits⟩ :=
        items_within_of_decode valid' read_array
      cases resolved.symm.trans resolved'
      have room : items.length ≤ before.bitsRemaining :=
        (Nat.le_mul_of_pos_right items.length positive).trans fits
      have toNat : count.toNat = count.toInt.toNat := rfl
      omega

/-- Seven items are counted, and there are no bits for them. -/
theorem lists_within_data_telegram :
    telegram.leastBits = 16 ∧
      Walk Reading.Hands ⟨telegram, none, .ofBytes [0xE0]⟩ [.slot 2]
        ⟨.array (.field "count") (.bitField 4), some [(.text "count", .int 7)], ⟨#[0xE0], 1, 0⟩⟩ ∧
      ∀ strict, ∃ failure, telegram.decodeBytes [0xE0] strict = .error failure := by
  have walked : Walk Reading.Hands ⟨telegram, none, .ofBytes [0xE0]⟩ [.slot 2]
      ⟨.array (.field "count") (.bitField 4), some [(.text "count", .int 7)], ⟨#[0xE0], 1, 0⟩⟩ :=
    .step (.slot rfl rfl (by cbv)) (.here _)
  have refused := (lists_within_data telegram [0xE0]).2 _ _ _ _ _ 7 walked (by rfl) (by decide)
    (by decide)
  exact ⟨by decide, walked, refused⟩

end Layout

end BitLayout
