import BitLayout.Proofs.Bits.Transfer
import BitLayout.Proofs.Decoding.Masked
import BitLayout.Proofs.Decoding.Record
import BitLayout.Proofs.Encoding.Success
import BitLayout.Proofs.Layout.Decidable
import BitLayout.Proofs.Text.Lossless
import Mathlib

/-!
# Encoding what was decoded

A value that was decoded encodes to the bits it came from, except that padding is cleared. The
decoder resolves references in the part of a record that it has read and the encoder in all of it,
so the induction is about a value that may have got more fields and a scope that may know more than
when the value was read.

## Main definitions

* `Layout.LosslessTexts`: texts encode to the bytes they were decoded from
* `Value.Covers`: the same value, or a record with more fields
* `InStep`: a reader and a writer at the same bit offset
* `Layout.Restores`: encoding restores the bits of a decoded value

## Main results

* `Layout.restores`: every layout with distinct names and lossless texts restores bits
* `Layout.encodeValue_of_read`: the same for whole byte strings
-/

namespace BitLayout

/-- A layout that is no text in an encoding that loses what it reads. -/
def Layout.HasLosslessText : Layout → Prop
  | .text _ encoding => EncodingName.Lossless encoding
  | _ => True

/-- A layout whose texts encode to the bytes they were decoded from, whatever these are. -/
def Layout.LosslessTexts (layout : Layout) : Prop := layout.Everywhere HasLosslessText

/-- A layout that is no text in another encoding than the plain ones. -/
def Layout.HasPlainText : Layout → Prop
  | .text _ encoding => ∃ e, EncodingName.find encoding = .encoding e ∧ e.isPlain = true
  | _ => True

/-- Texts in the encodings without a signature or a mark are lossless. -/
theorem Layout.losslessTexts_of_plain {layout : Layout} (plain : layout.Everywhere HasPlainText) :
    layout.LosslessTexts := by
  refine plain.mono fun layout here => ?_
  cases layout with
  | text length encoding =>
    obtain ⟨e, found, plain⟩ := here
    exact (EncodingName.lossless_iff found).mpr plain
  | _ => trivial

/-- The same value, or a record with more fields. -/
def Value.Covers (value' value : Value) : Prop :=
  value' = value ∨ ∃ whole fields, value' = .dict whole ∧ value = .dict fields ∧
    Entries.Extends whole fields

section Covers

variable {value value' : Value}

theorem Value.covers_refl (value : Value) : value.Covers value := Or.inl rfl

theorem Value.Covers.eq (covers : value'.Covers value) (plain : ∀ fields, value ≠ .dict fields) :
    value' = value := by
  rcases covers with same | ⟨whole, fields, -, same, -⟩
  · exact same
  · exact absurd same (plain fields)

theorem Value.Covers.dict {fields : Entries} (covers : value'.Covers (.dict fields)) :
    ∃ whole : Entries, value' = .dict whole ∧ whole.Extends fields := by
  rcases covers with same | ⟨whole, _, same, dict, extension⟩
  · exact ⟨fields, same, Entries.extends_refl fields⟩
  · cases dict
    exact ⟨whole, same, extension⟩

/-- The value that a slot takes from a whole record covers what it has stored there. -/
theorem Slot.covers_load {slot : Slot} {layout : Layout} (wellFormed : slot.WellFormed)
    (same : slot.layout? = some layout) {record record' whole : Entries} {r r' : BitReader}
    (distinct : layout.DistinctNames) (fresh : record.Lacks slot.names)
    (read : layout.decode (some record) r = .ok (value, r'))
    (stored : slot.store record value = some record') (extension : whole.Extends record') :
    (slot.load whole).Covers value := by
  cases slot with
  | named name layout =>
    cases stored
    rw [Slot.load, extension name value Entries.field?_insert_self]
    exact Value.covers_refl value
  | embedded layout =>
    cases same
    cases value with
    | dict fields =>
      cases stored
      have named := Layout.namedBy_of_decode distinct read
      -- Merging new names puts the fields behind the others, so what extends both extends them.
      rw [Entries.merge_of_absent named fresh] at extension
      have inside := extension.trans (Entries.extends_append_right named fresh)
      exact Or.inr ⟨whole, fields, rfl, rfl, inside⟩
    | _ => cases stored
  | padding layout label =>
    cases same
    obtain ⟨isPadding, -⟩ := wellFormed
    cases layout with
    | padding width =>
      obtain ⟨-, -, rfl, -⟩ := Layout.decode_padding_eq_ok_iff.mp read
      exact Value.covers_refl .null
    | _ => cases isPadding
  | foreign => cases same

end Covers

/-- A reader and a writer at the same bit offset, with room for all that is left to read. -/
structure InStep (memory : Memory) (r : BitReader) (w : BitWriter) (written : List Bool) :
    Prop where
  valid : r.Valid
  holds : w.Holds written
  offset : r.bitOffset = written.length % 8
  room : memory.hasRoom r.bitsRemaining = true

section InStep

variable {memory : Memory} {r r' : BitReader} {w w' : BitWriter} {written padded : List Bool}

theorem BitReader.Passes.masked_append (passes : r.Passes padded r') (more : List Bool) :
    masked r.remaining (padded ++ more) =
      masked r.remaining padded ++ masked r'.remaining more := by
  obtain ⟨within, rfl⟩ := passes
  rw [BitLayout.masked_append (by simpa using within), BitReader.remaining_advance]

/-- Reading some bits and writing them with the padding cleared keeps the offsets equal. -/
theorem InStep.advance (inStep : InStep memory r w written) (passes : r.Passes padded r')
    (holds : w'.Holds (written ++ masked r.remaining padded)) :
    InStep memory r' w' (written ++ masked r.remaining padded) := by
  have offset := inStep.offset
  refine ⟨passes.valid inStep.valid, holds, ?_, ?_⟩
  · rw [passes.moved, BitReader.bitOffset_advance, List.length_append,
      length_masked (by simpa using passes.within), offset, Nat.mod_add_mod]
  · refine Memory.hasRoom_of_le inStep.room ?_
    rw [passes.moved, BitReader.bitsRemaining_advance]
    exact Nat.sub_le _ _

theorem InStep.bitOffset_eq (inStep : InStep memory r w written) : w.bitOffset = r.bitOffset := by
  rw [inStep.holds.offset, inStep.offset]

/-- A number no wider than what is left to read is written. -/
theorem InStep.writeInt (inStep : InStep memory r w written) (value : Int) {width : Integer}
    (positive : 1 ≤ width.toInt) (enough : width.toNat ≤ r.bitsRemaining) :
    ∃ w', w.writeIntWithin memory value width = .ok w' ∧
      w'.Holds (written ++ bitsOfNat width.toNat (lowBits width.toNat value)) := by
  rw [BitWriter.writeIntWithin_of_hasRoom (Memory.hasRoom_of_le inStep.room enough)]
  exact inStep.holds.writeInt value positive

end InStep

/-- Encoding restores the bits of a decoded value, with the padding cleared. The value may have got
more fields since it was read, and the scope around it may resolve more. -/
def Layout.Restores (memory : Memory) (layout : Layout) : Prop :=
  ∀ {scope whole : Scope} {r r' : BitReader} {value value' : Value} {w : BitWriter}
    {written : List Bool},
    InStep memory r w written → layout.decode scope r = .ok (value, r') → value'.Covers value →
    whole.Supports Set.univ scope → scope.Natural →
    ∃ w', layout.encode memory value' whole w = .ok w' ∧
      w'.Holds (written ++ masked r.remaining (layout.padded scope r))

section Steps

variable {memory : Memory} {r r' : BitReader} {w : BitWriter} {written : List Bool}
  {scope whole : Scope}

theorem writeSlice_of_readSlice {kind : Layout.Kind} {length : Length} {raw : List UInt8}
    (inStep : InStep memory r w written) (read : readSlice kind length scope r = .ok (raw, r'))
    (supports : whole.Supports Set.univ scope) :
    ∃ w', writeSlice kind length raw whole w = .ok w' ∧
      w'.Holds (written ++ masked r.remaining (paddedInSlice kind length scope r)) := by
  obtain ⟨⟨count, resolved, -⟩, aligned, -, bits, -⟩ := readSlice_eq_ok_iff.mp read
  obtain ⟨count', resolved', -⟩ := supports.resolve length.refersTo_univ resolved
  have aligned' : w.bitOffset = 0 := by rw [inStep.bitOffset_eq, aligned]
  obtain ⟨w', wrote, holds⟩ := inStep.holds.writeBytes aligned' raw
  refine ⟨w', writeSlice_eq_ok_iff.mpr ⟨⟨count', resolved'⟩, wrote⟩, ?_⟩
  rwa [paddedInSlice_eq read, masked_replicate_false, ← bits]

theorem encodeItems_of_decodeItems {element : Layout} (restores : element.Restores memory)
    {count index : Nat} {items : List Value} (inStep : InStep memory r w written)
    (read : decodeItems (fun r => element.decode none r) count index r = .ok (items, r')) :
    ∃ w', encodeItems (fun item w => element.encode memory item none w) index items w = .ok w' ∧
      w'.Holds (written ++ masked r.remaining
        (paddedInItems (fun r => element.decode none r) (fun r => element.padded none r)
          count r)) := by
  induction count generalizing index r w written items with
  | zero =>
    cases read
    exact ⟨w, rfl, by simpa using inStep.holds⟩
  | succ count ih =>
    obtain ⟨first, others, r₁, read_first, read_others, rfl⟩ :=
      decodeItems_succ_eq_ok_iff.mp read
    have passes := Layout.passes_of_decode inStep.valid read_first
    -- Items see no record, while they are read as well as while they are written.
    obtain ⟨w₁, wrote_first, holds₁⟩ := restores inStep read_first (Value.covers_refl first)
      (Scope.supports_none none Set.univ) Scope.natural_none
    obtain ⟨w', wrote_others, holds⟩ := ih (inStep.advance passes holds₁) read_others
    refine ⟨w', encodeItems_cons_eq_ok_iff.mpr ⟨w₁, wrote_first, wrote_others⟩, ?_⟩
    rwa [paddedInItems_succ read_first, passes.masked_append, ← List.append_assoc]

theorem encodeSlots_of_decodeSlots {slots : List Slot}
    (each : ∀ slot ∈ slots, ∀ layout, slot.layout? = some layout → layout.Restores memory)
    (wellFormed : WellFormedSlots slots) (distinct : (Layout.sequence slots).DistinctNames)
    {record final whole : Entries} (inStep : InStep memory r w written)
    (read : decodeSlots slots record r = .ok (final, r')) (extension : whole.Extends final)
    (fresh : record.Lacks (namesOfSlots slots)) (natural : record.Natural) :
    ∃ w', encodeSlots memory slots whole w = .ok w' ∧
      w'.Holds (written ++ masked r.remaining (paddedInSlots slots record r)) := by
  induction slots generalizing record r w written with
  | nil =>
    cases read
    exact ⟨w, rfl, by simpa [paddedInSlots] using inStep.holds⟩
  | cons slot rest ih =>
    obtain ⟨inSlot, inRest⟩ := List.forall_mem_cons.mp each
    obtain ⟨fresh_slot, fresh_rest⟩ := List.forall_mem_append.mp fresh
    obtain ⟨layout, value, r₁, record₁, same, read_first, stored, read_rest⟩ :=
      decodeSlots_cons_eq_ok_iff.mp read
    have below : layout.DistinctNames := distinct.2.of_mem List.mem_cons_self same
    have passes := Layout.passes_of_decode inStep.valid read_first
    obtain ⟨alone, inRecord⟩ := Layout.natural_of_decode read_first
    -- The whole record extends what was read before this slot and what it has stored.
    obtain ⟨fields, appended, named⟩ := Slot.store_eq_append same
      (fun fields dict => Layout.namedBy_of_decode below (dict ▸ read_first)) fresh_slot stored
    have fresh₁ : record₁.Lacks (namesOfSlots rest) :=
      appended ▸ Entries.Lacks.append fresh_rest named distinct.1.1
    obtain ⟨added, final_eq, -⟩ := decodeSlots_eq_append distinct.rest fresh₁ read_rest
    have extension₁ : whole.Extends record₁ :=
      extension.trans (final_eq ▸ Entries.extends_append_left)
    have extension₀ : whole.Extends record :=
      extension₁.trans (appended ▸ Entries.extends_append_left)
    obtain ⟨w₁, wrote_first, holds₁⟩ := inSlot layout same inStep read_first
      (Slot.covers_load wellFormed.1 same below fresh_slot read_first stored extension₁)
      (Scope.supports_of_extends extension₀) natural.scope
    obtain ⟨w', wrote_rest, holds⟩ := ih inRest wellFormed.2 distinct.rest
      (inStep.advance passes holds₁) read_rest fresh₁ (natural.store alone inRecord stored)
    refine ⟨w', (encodeSlots_cons_eq_ok_iff wellFormed.1).mpr
      ⟨layout, w₁, same, wrote_first, wrote_rest⟩, ?_⟩
    rwa [paddedInSlots_cons same read_first stored, passes.masked_append, ← List.append_assoc]

theorem Layout.restores_bitField (width : Integer) : (bitField width).Restores memory := by
  intro scope whole r r' value value' w written inStep read covers _ _
  obtain ⟨positive, enough, rfl, -⟩ := (decode_bitField_eq_ok_iff inStep.valid).mp read
  rw [covers.eq (by simp), padded_bitField inStep.valid positive enough, masked_replicate_false]
  have width_eq : (r.remaining.take width.toNat).length = width.toNat := by simpa using enough
  have fits := natOfBits_lt (r.remaining.take width.toNat)
  have bits := bitsOfNat_natOfBits (r.remaining.take width.toNat)
  rw [width_eq] at fits bits
  obtain ⟨w', wrote, holds⟩ :=
    inStep.writeInt (natOfBits (r.remaining.take width.toNat)) positive enough
  rw [lowBits_natCast fits, bits] at holds
  exact ⟨w', encode_bitField_eq_ok_iff.mpr ⟨_, rfl, wrote⟩, holds⟩

/-- Every well-formed layout with distinct names and lossless texts restores bits. -/
theorem Layout.restores {layout : Layout} (wellFormed : layout.WellFormed)
    (distinct : layout.DistinctNames) (lossless : layout.LosslessTexts) :
    layout.Restores memory := by
  -- On the tree of layouts. A sequence starts a record of its own, from which nothing is missing in
  -- the end; below it the part that was read and the whole record go different ways.
  induction layout using Layout.induction with
  | abstract => exact wellFormed.elim
  | sequence slots ih =>
    intro scope whole r r' value value' w written inStep read covers _ _
    obtain ⟨record, read_slots, rfl⟩ := decode_sequence_eq_ok_iff.mp read
    obtain ⟨whole, rfl, extension⟩ := covers.dict
    have each : ∀ slot ∈ slots, ∀ layout, slot.layout? = some layout → layout.Restores memory := by
      intro slot member layout same
      exact ih slot member layout same (wellFormed.of_mem member same)
        (distinct.2.of_mem member same) (lossless.2.of_mem member same)
    obtain ⟨w', wrote, holds⟩ := encodeSlots_of_decodeSlots each wellFormed distinct inStep
      read_slots extension (Entries.lacks_nil _) (by simp [Entries.Natural])
    exact ⟨w', encode_sequence_eq_ok_iff.mpr ⟨whole, rfl, wrote⟩, holds⟩
  | array length element ih =>
    intro scope whole r r' value value' w written inStep read covers supports natural
    obtain ⟨count, items, resolved, read_items, rfl⟩ := decode_array_eq_ok_iff.mp read
    obtain ⟨count', resolved', same⟩ := supports.resolve length.refersTo_univ resolved
    -- A negative count would read no items, but no list is that long.
    have nonnegative := natural.resolve wellFormed.1 resolved
    have count_eq : count'.toInt = items.length := by
      rw [same, length_of_decodeItems read_items, Integer.toNat, Int.toNat_of_nonneg nonnegative]
    obtain ⟨w', wrote, holds⟩ := encodeItems_of_decodeItems
      (ih wellFormed.2 distinct.2 lossless.2) inStep read_items
    rw [covers.eq (by simp), padded_array resolved]
    exact ⟨w', encode_array_eq_ok_iff.mpr ⟨items, count', rfl, resolved', count_eq, wrote⟩, holds⟩
  | branch discriminant cases otherwise ih =>
    intro scope whole r r' value value' w written inStep read covers supports natural
    obtain ⟨key, layout, found, chosen, read_chosen⟩ := decode_branch_eq_ok_iff.mp read
    -- The whole record may hold another spelling of the discriminant, which chooses the same.
    obtain ⟨key', found', chosen'⟩ := supports.select trivial found chosen
    have alternative := alternative_of_select chosen
    obtain ⟨w', wrote, holds⟩ := ih layout alternative (wellFormed.alternative alternative)
      (distinct.alternative alternative) (lossless.alternative alternative) inStep read_chosen
      covers supports natural
    rw [padded_branch found chosen]
    exact ⟨w', encode_branch_eq_ok_iff.mpr ⟨key', layout, found', chosen', wrote⟩, holds⟩
  | bitField width => exact restores_bitField width
  | wideField width =>
    intro scope whole r r' value value' w written inStep read covers supports natural
    rw [decode_wideField_eq_ok_iff] at read
    obtain ⟨w', wrote, holds⟩ := restores_bitField width inStep read covers supports natural
    rw [padded_wideField]
    exact ⟨w', encode_wideField_eq_ok_iff.mpr wrote, holds⟩
  | byteSlice length =>
    intro scope whole r r' value value' w written inStep read covers supports _
    obtain ⟨raw, read_raw, rfl⟩ := decode_byteSlice_eq_ok_iff.mp read
    obtain ⟨w', wrote, holds⟩ := writeSlice_of_readSlice inStep read_raw supports
    exact ⟨w', encode_byteSlice_eq_ok_iff.mpr ⟨.fixed, raw, covers.eq (by simp), wrote⟩, holds⟩
  | text length encoding =>
    intro scope whole r r' value value' w written inStep read covers supports _
    obtain ⟨raw, t, read_raw, spelled, rfl⟩ := decode_text_eq_ok_iff.mp read
    obtain ⟨w', wrote, holds⟩ := writeSlice_of_readSlice inStep read_raw supports
    exact ⟨w', encode_text_eq_ok_iff.mpr
      ⟨t, raw, covers.eq (by simp), lossless raw t spelled, wrote⟩, holds⟩
  | padding width =>
    intro scope whole r r' value value' w written inStep read _ _ _
    obtain ⟨nonnegative, enough, -, -⟩ := decode_padding_eq_ok_iff.mp read
    -- Padding of no bits could be read but not written; it is not well-formed.
    have positive : 1 ≤ width.toInt := by
      cases width with
      | number n => exact wellFormed
      | truth b => exact wellFormed.elim
    obtain ⟨w', wrote, holds⟩ := inStep.writeInt 0 positive enough
    rw [padded_padding nonnegative enough, masked_replicate_true (by simpa using enough)]
    refine ⟨w', encode_padding_eq_ok_iff.mpr wrote, ?_⟩
    simpa [lowBits] using holds

end Steps

/-- Bits with the padding cleared, as well as all bits behind the marked ones. -/
def cleared (bits padded : List Bool) : List Bool :=
  masked bits (padded ++ List.replicate (bits.length - padded.length) true)

/-- Clearing whole bytes keeps the marked bits outside the padding and fills up with zeros. -/
theorem cleared_take {bits padded : List Bool} {count : Nat} (within : padded.length ≤ count)
    (enough : count ≤ bits.length) :
    cleared (bits.take count) padded =
      masked bits padded ++ List.replicate (count - padded.length) false := by
  have length : (bits.take count).length = count := by rw [List.length_take, Nat.min_eq_left enough]
  rw [cleared, length, masked_append (by omega), masked_replicate_true (by simp; omega),
    masked_take within]

namespace Layout

variable {layout : Layout} {data bytes : List UInt8} {value : Value} {r : BitReader}

/-- The bits of a value that was read from the front of a byte string. -/
theorem encodeWithin_of_read {memory : Memory} (wellFormed : layout.WellFormed)
    (distinct : layout.DistinctNames) (lossless : layout.LosslessTexts)
    (room : memory.hasRoom (8 * data.length) = true) (read : layout.read data = .ok (value, r)) :
    ∃ w : BitWriter, layout.encodeWithin memory value = .ok w.toBytes ∧
      w.Holds (masked (bitsOfBytes data) (layout.padded none (.ofBytes data))) := by
  have start : InStep memory (.ofBytes data) .empty [] :=
    ⟨BitReader.valid_ofBytes data, BitWriter.holds_empty, rfl, room⟩
  obtain ⟨w, wrote, holds⟩ := restores wellFormed distinct lossless start read
    (Value.covers_refl value) (Scope.supports_none none Set.univ) Scope.natural_none
  exact ⟨w, map_eq_ok_iff.mpr ⟨w, wrote, rfl⟩, holds⟩

/-- The same value is read from bytes that hold its bits with the padding cleared, and no whole byte
is left over. -/
theorem decodeBytes_of_read (read : layout.read data = .ok (value, r)) {w : BitWriter}
    (holds : w.Holds (masked (bitsOfBytes data) (layout.padded none (.ofBytes data)))) :
    layout.decodeBytes w.toBytes true = .ok value := by
  have passes := passes_of_decode (BitReader.valid_ofBytes data) read
  have enough := passes.within
  rw [← BitReader.length_remaining, BitReader.remaining_ofBytes] at enough
  have length := length_masked enough
  have valid := BitReader.valid_ofBytes w.toBytes
  -- The written bits are the masked ones, so masking them again gives what masking the data gives.
  have agrees : BitReader.Agrees (.ofBytes w.toBytes) (layout.padded none (.ofBytes data))
      (.ofBytes data) := by
    refine ⟨rfl, length ▸ holds.length_le_bitsRemaining, ?_⟩
    rw [holds.remaining_ofBytes, BitReader.remaining_ofBytes]
    exact masked_masked_append enough _
  have again := decode_of_agrees (BitReader.valid_ofBytes data) valid read agrees
  refine bind_eq_ok_iff.mpr ⟨_, again, ?_⟩
  have nothing := holds.trailingBytes_eq_zero
  rw [length] at nothing
  simp [nothing]

/-- Encoding a value that was read restores the bytes it was read from, with the padding cleared and
all bits behind the last one that was read, and decoding these bytes gives the value again, with
nothing left over. A machine with limited room encodes the value too if it has room for the data. -/
theorem encodeValue_of_read (wellFormed : layout.WellFormed) (distinct : layout.DistinctNames)
    (lossless : layout.LosslessTexts) (read : layout.read data = .ok (value, r)) :
    ∃ bytes, layout.encodeValue value = .ok bytes ∧
      (∀ memory : Memory, memory.hasRoom (8 * data.length) = true →
        layout.encodeWithin memory value = .ok bytes) ∧
      (layout.padded none (.ofBytes data)).length = r.position ∧
      bytes.length = (r.position + 7) / 8 ∧
      bitsOfBytes bytes =
        cleared (bitsOfBytes (data.take bytes.length)) (layout.padded none (.ofBytes data)) ∧
      layout.decodeBytes bytes true = .ok value := by
  have unlimited : Memory.unbounded.hasRoom (8 * data.length) = true := rfl
  obtain ⟨w, wrote, holds⟩ := encodeWithin_of_read wellFormed distinct lossless unlimited read
  have passes := passes_of_decode (BitReader.valid_ofBytes data) read
  have position : r.position = (layout.padded none (.ofBytes data)).length := by
    rw [passes.moved, BitReader.position_advance, BitReader.position_ofBytes, Nat.zero_add]
  have enough := passes.within
  rw [← BitReader.length_remaining, BitReader.remaining_ofBytes] at enough
  have length := holds.length_toBytes
  rw [length_masked enough, ← position] at length
  refine ⟨w.toBytes, wrote, fun memory room => ?_, position.symm, length, ?_,
    decodeBytes_of_read read holds⟩
  -- Two writers that hold the same bits have the same bytes, whatever room they had.
  · obtain ⟨w', wrote', holds'⟩ := encodeWithin_of_read wellFormed distinct lossless room read
    rw [wrote', holds.toBytes_eq holds']
  · rw [length_bitsOfBytes] at enough
    rw [bitsOfBytes_take, cleared_take (by omega) (by rw [length_bitsOfBytes]; omega), holds.bytes,
      length_masked (by rw [length_bitsOfBytes]; omega), filling]
    congr 2
    omega

theorem encodeValue_of_read_telegram :
    telegram.WellFormed ∧ telegram.DistinctNames ∧ telegram.LosslessTexts ∧
      telegram.read [0x5F, 0xAB, 0x43] = .ok (.dict telegramRecord, ⟨#[0x5F, 0xAB, 0x43], 3, 0⟩) ∧
      ∃ bytes, telegram.encodeValue (.dict telegramRecord) = .ok bytes ∧ bytes.length = 3 ∧
        telegram.decodeBytes bytes true = .ok (.dict telegramRecord) := by
  have ascii : HasPlainText (.text (.literal 1) "ascii") := ⟨.ascii, by decide +kernel, rfl⟩
  have lossless : telegram.LosslessTexts := losslessTexts_of_plain
    ⟨trivial, trivial, trivial, ⟨trivial, trivial⟩,
      ⟨trivial, ⟨⟨trivial, ascii, trivial⟩, trivial⟩, trivial⟩, trivial⟩
  have read : telegram.read [0x5F, 0xAB, 0x43] =
      .ok (.dict telegramRecord, ⟨#[0x5F, 0xAB, 0x43], 3, 0⟩) := by cbv
  obtain ⟨bytes, wrote, -, -, length, -, again⟩ :=
    encodeValue_of_read wellFormed_telegram distinctNames_telegram lossless read
  exact ⟨wellFormed_telegram, distinctNames_telegram, lossless, read, bytes, wrote, length, again⟩

/-- The padding of the first byte is cleared. -/
example : telegram.encodeValue (.dict telegramRecord) = .ok [0x40, 0xAB, 0x43] := by cbv

end Layout

end BitLayout
