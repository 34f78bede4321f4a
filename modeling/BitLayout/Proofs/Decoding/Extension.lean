import BitLayout.Proofs.Decoding.Failure
import BitLayout.Proofs.Decoding.Masked
import BitLayout.Proofs.Layout.Decidable
import Mathlib

/-!
# Reading with more bytes behind

A reading looks at the bits that it passes and at no others, so more bytes behind them change nothing
unless it ran out of bits. What a shorter byte string comes to is therefore settled by a longer one:
it gives the same value or stops for the same reason, or else it is truncated.

## Main definitions

* `BitReader.followedBy`: a reader with more bytes behind

## Main results

* `Layout.decode_followedBy`: a value that is read is read again
* `Layout.decode_followedBy_of_error`: a failure that is no truncation occurs again
* `Layout.final_unless_truncated`: the same for whole byte strings, and what their beginnings come to
-/

namespace BitLayout

namespace BitReader

/-- The reader with more bytes behind its own. -/
def followedBy (r : BitReader) (more : List UInt8) : BitReader :=
  { r with data := r.data ++ more.toArray }

variable {r : BitReader} {more : List UInt8}

@[simp] theorem position_followedBy : (r.followedBy more).position = r.position := rfl

theorem advance_followedBy (count : Nat) :
    (r.followedBy more).advance count = (r.advance count).followedBy more := rfl

theorem ofBytes_followedBy (data : List UInt8) :
    (ofBytes data).followedBy more = ofBytes (data ++ more) := by
  simp [followedBy, ofBytes]

theorem Valid.followedBy (valid : r.Valid) (more : List UInt8) : (r.followedBy more).Valid := by
  have within := valid.within
  have size : (r.followedBy more).data.size = r.data.size + more.length := by
    simp [BitReader.followedBy]
  refine ⟨valid.offset_lt, ?_⟩
  rw [position_followedBy, size]
  omega

theorem Valid.remaining_followedBy (valid : r.Valid) :
    (r.followedBy more).remaining = r.remaining ++ bitsOfBytes more := by
  have within : r.position ≤ (bitsOfBytes r.data.toList).length := by simpa using valid.within
  rw [remaining, position_followedBy, remaining, ← List.drop_append_of_le_length within]
  simp [BitReader.followedBy]

/-- More bytes behind do not change the bits that a reading passes. -/
theorem Passes.agrees_followedBy {r' : BitReader} {padded : List Bool}
    (passes : r.Passes padded r') (valid : r.Valid) (more : List UInt8) :
    (r.followedBy more).Agrees padded r := by
  have within : padded.length ≤ r.remaining.length := by simpa using passes.within
  refine ⟨rfl, ?_, ?_⟩
  · rw [← length_remaining, valid.remaining_followedBy, List.length_append]
    omega
  · rw [valid.remaining_followedBy, ← masked_take within, List.take_left]

end BitReader

section Decoding

variable {scope : Scope} {r r' : BitReader} {value : Value} {failure : Failure}

/-- A value that is read is read again with more bytes behind. -/
theorem Layout.decode_followedBy {layout : Layout} (valid : r.Valid)
    (read : layout.decode scope r = .ok (value, r')) (more : List UInt8) :
    layout.decode scope (r.followedBy more) = .ok (value, r'.followedBy more) := by
  have passes := passes_of_decode valid read
  have again :=
    decode_of_agrees valid (valid.followedBy more) read (passes.agrees_followedBy valid more)
  rw [again, passes.moved, BitReader.advance_followedBy]

/-- A request that is refused, but not for want of bits, is refused again. -/
theorem readNat_followedBy_of_error {kind : Layout.Kind} {width : Integer} {error : CursorError}
    (refused : r.readNat width = .error error) (otherwise : ¬(error.ofKind kind).IsTruncation)
    (more : List UInt8) : (r.followedBy more).readNat width = .error error := by
  rcases BitReader.readNat_eq_error_iff.mp refused with narrow | ⟨-, -, rfl⟩
  · exact BitReader.readNat_eq_error_iff.mpr (Or.inl narrow)
  · exact absurd (Failure.isTruncation_truncated _ _ _) otherwise

theorem skip_followedBy_of_error {kind : Layout.Kind} {count : Integer} {error : CursorError}
    (refused : r.skip count = .error error) (otherwise : ¬(error.ofKind kind).IsTruncation)
    (more : List UInt8) : (r.followedBy more).skip count = .error error := by
  rcases BitReader.skip_eq_error_iff.mp refused with negative | ⟨-, -, rfl⟩
  · exact BitReader.skip_eq_error_iff.mpr (Or.inl negative)
  · exact absurd (Failure.isTruncation_truncated _ _ _) otherwise

theorem readSlice_followedBy_of_error {kind : Layout.Kind} {length : Length}
    (stopped : readSlice kind length scope r = .error failure) (otherwise : ¬failure.IsTruncation)
    (more : List UInt8) : readSlice kind length scope (r.followedBy more) = .error failure := by
  -- Its place and its length are those of the shorter reader.
  rcases readSlice_eq_error_iff.mp stopped with misaligned | unresolved | ⟨aligned, count, resolved,
    negative | ⟨-, -, rfl⟩⟩
  · exact readSlice_eq_error_iff.mpr (Or.inl misaligned)
  · exact readSlice_eq_error_iff.mpr (Or.inr (Or.inl unresolved))
  · exact readSlice_eq_error_iff.mpr
      (Or.inr (Or.inr ⟨aligned, count, resolved, Or.inl negative⟩))
  · exact absurd (Failure.isTruncation_truncated _ _ _) otherwise

theorem readSlice_followedBy {kind : Layout.Kind} {length : Length} {raw : List UInt8}
    (valid : r.Valid) (read : readSlice kind length scope r = .ok (raw, r')) (more : List UInt8) :
    readSlice kind length scope (r.followedBy more) = .ok (raw, r'.followedBy more) := by
  have passes := passes_of_readSlice read
  rw [readSlice_of_agrees read (passes.agrees_followedBy valid more), passes.moved,
    BitReader.advance_followedBy]

theorem decodeItems_followedBy_of_error {item : BitReader → Except Failure (Value × BitReader)}
    {more : List UInt8}
    (again : ∀ {r r' value}, r.Valid → item r = .ok (value, r') →
      r'.Valid ∧ item (r.followedBy more) = .ok (value, r'.followedBy more))
    (each : ∀ {r failure}, r.Valid → item r = .error failure → ¬failure.IsTruncation →
      item (r.followedBy more) = .error failure)
    {count index : Nat} (valid : r.Valid)
    (stopped : decodeItems item count index r = .error failure) (otherwise : ¬failure.IsTruncation) :
    decodeItems item count index (r.followedBy more) = .error failure := by
  -- The items before the one that stops are read again.
  induction count generalizing index r with
  | zero => cases stopped
  | succ count ih =>
    apply decodeItems_succ_eq_error_iff.mpr
    rcases decodeItems_succ_eq_error_iff.mp stopped with ⟨inner, here, rfl⟩ | ⟨first, r₁, read, later⟩
    · exact Or.inl ⟨inner, each valid here (mt Failure.belongsTo_within.mpr otherwise), rfl⟩
    · obtain ⟨valid₁, read_again⟩ := again valid read
      exact Or.inr ⟨first, _, read_again, ih valid₁ later⟩

theorem decodeSlots_followedBy_of_error {slots : List Slot} {more : List UInt8}
    (each : ∀ slot ∈ slots, ∀ layout, slot.layout? = some layout → ∀ {scope r failure}, r.Valid →
      layout.decode scope r = .error failure → ¬failure.IsTruncation →
      layout.decode scope (r.followedBy more) = .error failure)
    {record : Entries} (valid : r.Valid)
    (stopped : decodeSlots slots record r = .error failure) (otherwise : ¬failure.IsTruncation) :
    decodeSlots slots record (r.followedBy more) = .error failure := by
  -- The slots before the one that stops put the same fields into the record.
  induction slots generalizing record r with
  | nil => cases stopped
  | cons slot rest ih =>
    obtain ⟨inSlot, inRest⟩ := List.forall_mem_cons.mp each
    apply decodeSlots_cons_eq_error_iff.mpr
    rcases decodeSlots_cons_eq_error_iff.mp stopped with foreign | ⟨layout, same,
      ⟨inner, here, rfl⟩ | ⟨value, r₁, read, outcome⟩⟩
    · exact Or.inl foreign
    · have later := inSlot layout same valid here (mt Slot.belongsTo_place.mpr otherwise)
      exact Or.inr ⟨layout, same, Or.inl ⟨inner, later, rfl⟩⟩
    · have valid₁ := (Layout.passes_of_decode valid read).valid valid
      refine Or.inr ⟨layout, same, Or.inr ⟨value, _, Layout.decode_followedBy valid read more, ?_⟩⟩
      refine outcome.imp_right ?_
      rintro ⟨record₁, stored, later⟩
      exact ⟨record₁, stored, ih inRest valid₁ later⟩

/-- A reading that stops, but not for want of bits, stops for the same reason with more bytes
behind. -/
theorem Layout.decode_followedBy_of_error {layout : Layout} (valid : r.Valid)
    (stopped : layout.decode scope r = .error failure) (otherwise : ¬failure.IsTruncation)
    (more : List UInt8) : layout.decode scope (r.followedBy more) = .error failure := by
  induction layout using Layout.induction generalizing scope r failure with
  | abstract => exact stopped
  | sequence slots ih =>
    rw [decode_sequence_eq_error_iff] at stopped ⊢
    exact decodeSlots_followedBy_of_error ih valid stopped otherwise
  | array length element ih =>
    rw [decode_array_eq_error_iff] at stopped ⊢
    refine stopped.imp_right ?_
    rintro ⟨count, resolved, stopped⟩
    refine ⟨count, resolved, ?_⟩
    refine decodeItems_followedBy_of_error (fun valid read => ?_) ih valid stopped otherwise
    exact ⟨(passes_of_decode valid read).valid valid, decode_followedBy valid read more⟩
  | branch discriminant cases alternative ih =>
    rw [decode_branch_eq_error_iff] at stopped ⊢
    refine stopped.imp_right ?_
    rintro ⟨key, layout, found, chosen, stopped⟩
    exact ⟨key, layout, found, chosen,
      ih layout (alternative_of_select chosen) valid stopped otherwise⟩
  | bitField width =>
    obtain ⟨error, refused, rfl⟩ := decode_bitField_eq_error_iff.mp stopped
    exact decode_bitField_eq_error_iff.mpr
      ⟨error, readNat_followedBy_of_error refused otherwise more, rfl⟩
  | wideField width =>
    obtain ⟨error, refused, rfl⟩ := decode_wideField_eq_error_iff.mp stopped
    exact decode_wideField_eq_error_iff.mpr
      ⟨error, readNat_followedBy_of_error refused otherwise more, rfl⟩
  | byteSlice length =>
    rw [decode_byteSlice_eq_error_iff] at stopped ⊢
    exact readSlice_followedBy_of_error stopped otherwise more
  | text length encoding =>
    rw [decode_text_eq_error_iff] at stopped ⊢
    rcases stopped with stopped | ⟨raw, r', read, stopped⟩
    · exact Or.inl (readSlice_followedBy_of_error stopped otherwise more)
    · exact Or.inr ⟨raw, _, readSlice_followedBy valid read more, stopped⟩
  | padding width =>
    obtain ⟨error, refused, rfl⟩ := decode_padding_eq_error_iff.mp stopped
    exact decode_padding_eq_error_iff.mpr
      ⟨error, skip_followedBy_of_error refused otherwise more, rfl⟩

end Decoding

namespace Layout

variable {layout : Layout} {data : List UInt8}

theorem read_append {value : Value} {r : BitReader} (read : layout.read data = .ok (value, r))
    (more : List UInt8) : layout.read (data ++ more) = .ok (value, r.followedBy more) := by
  rw [Layout.read, ← BitReader.ofBytes_followedBy]
  exact decode_followedBy (BitReader.valid_ofBytes data) read more

theorem read_append_of_error {failure : Failure} (stopped : layout.read data = .error failure)
    (otherwise : ¬failure.IsTruncation) (more : List UInt8) :
    layout.read (data ++ more) = .error failure := by
  rw [Layout.read, ← BitReader.ofBytes_followedBy]
  exact decode_followedBy_of_error (BitReader.valid_ofBytes data) stopped otherwise more

/-- A reading that is not strict is that of the layout alone. -/
theorem decodeBytes_false : layout.decodeBytes data false = Prod.fst <$> layout.read data := by
  rw [decodeBytes]
  cases layout.read data <;> rfl

/-- What is decoded, strictly or not, is read. -/
theorem read_of_decodeBytes {value : Value} {strict : Bool}
    (decoded : layout.decodeBytes data strict = .ok value) :
    ∃ r, layout.read data = .ok (value, r) := by
  obtain ⟨⟨value', r⟩, read, same⟩ := bind_eq_ok_iff.mp decoded
  dsimp only at same
  split_ifs at same
  cases same
  exact ⟨r, read⟩

/-- A reading ends within its byte string. -/
theorem position_le_of_read {value : Value} {r : BitReader}
    (read : layout.read data = .ok (value, r)) : r.position ≤ 8 * data.length := by
  have passes := passes_of_decode (BitReader.valid_ofBytes data) read
  have within := passes.within
  rw [BitReader.bitsRemaining_ofBytes] at within
  rw [passes.moved, BitReader.position_advance, BitReader.position_ofBytes]
  omega

/-- What a byte string comes to is final unless it is truncated: the same value, or the same failure
with the same path and wording, comes of the byte string with anything behind it. A beginning that
has fewer bytes than a successful reading uses is truncated. -/
theorem final_unless_truncated (layout : Layout) (data more : List UInt8) :
    (∀ value, layout.decodeBytes data false = .ok value →
      layout.decodeBytes (data ++ more) false = .ok value) ∧
    (∀ failure, layout.decodeBytes data false = .error failure → ¬failure.IsTruncation →
      layout.decodeBytes (data ++ more) false = .error failure) ∧
    ∀ value r, layout.read (data ++ more) = .ok (value, r) → data.length < (r.position + 7) / 8 →
      ∃ failure, layout.decodeBytes data false = .error failure ∧ failure.IsTruncation := by
  simp only [decodeBytes_false, map_eq_ok_iff, map_eq_error_iff]
  refine ⟨?_, fun failure stopped otherwise => read_append_of_error stopped otherwise more, ?_⟩
  · rintro _ ⟨⟨value, r⟩, read, rfl⟩
    exact ⟨_, read_append read more, rfl⟩
  · intro value r read short
    -- The beginning cannot be read, since the reading would end in it, nor stop for another reason.
    cases outcome : layout.read data with
    | ok answer =>
      obtain ⟨value', r'⟩ := answer
      have again := read_append outcome more
      rw [read] at again
      cases again
      have within := position_le_of_read outcome
      rw [BitReader.position_followedBy] at short
      omega
    | error failure =>
      refine ⟨failure, rfl, ?_⟩
      by_contra otherwise
      have again := read_append_of_error outcome otherwise more
      rw [read] at again
      cases again

theorem final_unless_truncated_telegram :
    telegram.decodeBytes [0x5F, 0xAB, 0x43] false = .ok (.dict telegramRecord) ∧
      telegram.decodeBytes [0x5F, 0xAB, 0x43, 0xFF] false = .ok (.dict telegramRecord) ∧
      (∃ failure, telegram.decodeBytes [0x5F, 0xAB, 0x83] false = .error failure ∧
        ¬failure.IsTruncation ∧
        telegram.decodeBytes [0x5F, 0xAB, 0x83, 0xFF] false = .error failure) ∧
      ∃ failure, telegram.decodeBytes [0x5F, 0xAB] false = .error failure ∧ failure.IsTruncation := by
  have read : telegram.read [0x5F, 0xAB, 0x43] =
      .ok (.dict telegramRecord, ⟨#[0x5F, 0xAB, 0x43], 3, 0⟩) := by cbv
  have value : telegram.decodeBytes [0x5F, 0xAB, 0x43] false = .ok (.dict telegramRecord) := by
    rw [decodeBytes_false, read]
    rfl
  -- The last byte is no character of the unit's encoding.
  have stopped : telegram.decodeBytes [0x5F, 0xAB, 0x83] false =
      .error (.located [.field "unit"] (.undecodableText "ascii"
        ⟨"ascii", 0x83, 0, 1, .ordinal 128⟩)) := by cbv
  have otherwise : ¬(Failure.located [.field "unit"] (.undecodableText "ascii"
      ⟨"ascii", 0x83, 0, 1, .ordinal 128⟩)).IsTruncation := by
    simp [Failure.BelongsTo, Cause.category, Category.ancestors]
  refine ⟨value, ?_, ⟨_, stopped, otherwise, ?_⟩, ?_⟩
  · exact (final_unless_truncated telegram [0x5F, 0xAB, 0x43] [0xFF]).1 _ value
  · exact (final_unless_truncated telegram [0x5F, 0xAB, 0x83] [0xFF]).2.1 _ stopped otherwise
  · exact (final_unless_truncated telegram [0x5F, 0xAB] [0x43]).2.2 _ _ read (by decide)

end Layout

end BitLayout
