import BitLayout.Proofs.Bits.Transfer
import BitLayout.Proofs.Decoding.Failure
import BitLayout.Proofs.Decoding.Padding
import BitLayout.Proofs.Layout.Decidable
import BitLayout.Proofs.Layout.Size
import BitLayout.Proofs.Visits
import Mathlib

/-!
# Static sizes

Where a layout has a size, that is the number of bits that every reading uses and that every writing
of bytes and texts of the right length appends. A shorter byte string cannot be read. A longer one is
never truncated: its reading may stop, but for another reason.

## Main results

* `Layout.HasBits.advance_of_decode`: a reading uses so many bits
* `Layout.HasBits.not_isTruncation`: so many bits are enough
* `Layout.HasBits.holds_of_encode`: a writing appends so many bits
* `Layout.static_size`: all three for whole byte strings and values
-/

namespace BitLayout

section Decoding

variable {bits : Nat} {scope : Scope} {r r' : BitReader} {value : Value} {failure : Failure}

theorem position_of_readSlice {kind : Layout.Kind} {count : Integer} {raw : List UInt8}
    (has : 8 * count.toInt = bits) (read : readSlice kind (.literal count) scope r = .ok (raw, r')) :
    r'.position = r.position + bits := by
  obtain ⟨⟨_, resolved, same⟩, -, -, -, rfl⟩ := readSlice_eq_ok_iff.mp read
  cases resolved
  rw [BitReader.position_advance]
  omega

theorem position_of_decodeItems {item : BitReader → Except Failure (Value × BitReader)}
    (each : ∀ {r r' value}, r.Valid → item r = .ok (value, r') →
      r'.Valid ∧ r'.position = r.position + bits)
    {count index : Nat} {items : List Value} (valid : r.Valid)
    (read : decodeItems item count index r = .ok (items, r')) :
    r'.position = r.position + count * bits := by
  induction count generalizing index r items with
  | zero =>
    cases read
    omega
  | succ count ih =>
    obtain ⟨first, others, r₁, read_first, read_others, -⟩ := decodeItems_succ_eq_ok_iff.mp read
    obtain ⟨valid₁, position⟩ := each valid read_first
    rw [ih valid₁ read_others, position, Nat.succ_mul]
    omega

theorem position_of_decodeSlots {slots : List Slot}
    (each : ∀ slot ∈ slots, ∀ layout, slot.layout? = some layout → ∀ {bits scope r r' value},
      layout.HasBits bits → r.Valid → layout.decode scope r = .ok (value, r') →
      r'.position = r.position + bits)
    (wellFormed : WellFormedSlots slots) (has : SlotsHaveBits slots bits) {record final : Entries}
    (valid : r.Valid) (read : decodeSlots slots record r = .ok (final, r')) :
    r'.position = r.position + bits := by
  induction slots generalizing bits record r with
  | nil =>
    cases read
    obtain ⟨size, measured, total⟩ := has
    cases measured
    change (0 : Int) = bits at total
    omega
  | cons slot rest ih =>
    obtain ⟨inSlot, inRest⟩ := List.forall_mem_cons.mp each
    obtain ⟨layout, first, others, same, has_first, has_rest, rfl⟩ := has.of_cons wellFormed
    obtain ⟨_, value, r₁, record₁, same', read_first, -, read_rest⟩ :=
      decodeSlots_cons_eq_ok_iff.mp read
    rw [same] at same'
    cases same'
    have valid₁ := (Layout.passes_of_decode valid read_first).valid valid
    rw [ih inRest wellFormed.2 has_rest valid₁ read_rest,
      inSlot layout same has_first valid read_first, Nat.add_assoc]

/-- A reading of a layout with a size moves by that size. -/
theorem Layout.HasBits.position_of_decode {layout : Layout} (has : layout.HasBits bits)
    (wellFormed : layout.WellFormed) (valid : r.Valid)
    (read : layout.decode scope r = .ok (value, r')) : r'.position = r.position + bits := by
  induction layout using Layout.induction generalizing bits scope r r' value with
  | abstract => exact wellFormed.elim
  | sequence slots ih =>
    obtain ⟨record, read_slots, -⟩ := decode_sequence_eq_ok_iff.mp read
    refine position_of_decodeSlots ?_ wellFormed has valid read_slots
    intro slot member layout same bits scope r r' value has valid
    exact ih slot member layout same has (wellFormed.of_mem member same) valid
  | array length element ih =>
    obtain ⟨count, each, rfl, has_element, rfl⟩ := has.array wellFormed
    obtain ⟨_, items, resolved, read_items, -⟩ := decode_array_eq_ok_iff.mp read
    cases resolved
    refine position_of_decodeItems (fun valid read => ?_) valid read_items
    exact ⟨(passes_of_decode valid read).valid valid, ih has_element wellFormed.2 valid read⟩
  | branch discriminant cases otherwise ih =>
    obtain ⟨key, layout, -, chosen, read_chosen⟩ := decode_branch_eq_ok_iff.mp read
    have alternative := alternative_of_select chosen
    exact ih layout alternative (has.alternative alternative) (wellFormed.alternative alternative)
      valid read_chosen
  | bitField width =>
    have total := has.width rfl
    obtain ⟨-, -, -, rfl⟩ := (decode_bitField_eq_ok_iff valid).mp read
    rw [BitReader.position_advance, Integer.toNat, total, Int.toNat_natCast]
  | wideField width =>
    have total := has.width rfl
    rw [decode_wideField_eq_ok_iff] at read
    obtain ⟨-, -, -, rfl⟩ := (decode_bitField_eq_ok_iff valid).mp read
    rw [BitReader.position_advance, Integer.toNat, total, Int.toNat_natCast]
  | byteSlice length =>
    obtain ⟨count, rfl, total⟩ := has.byteSlice
    obtain ⟨raw, read_raw, -⟩ := decode_byteSlice_eq_ok_iff.mp read
    exact position_of_readSlice total read_raw
  | text length encoding =>
    obtain ⟨count, rfl, total⟩ := has.text
    obtain ⟨raw, t, read_raw, -, -⟩ := decode_text_eq_ok_iff.mp read
    exact position_of_readSlice total read_raw
  | padding width =>
    have total := has.width rfl
    obtain ⟨-, -, -, rfl⟩ := decode_padding_eq_ok_iff.mp read
    rw [BitReader.position_advance, Integer.toNat, total, Int.toNat_natCast]

/-- A reading of a layout with a size uses as many bits, all of which were there. -/
theorem Layout.HasBits.advance_of_decode {layout : Layout} (has : layout.HasBits bits)
    (wellFormed : layout.WellFormed) (valid : r.Valid)
    (read : layout.decode scope r = .ok (value, r')) :
    bits ≤ r.bitsRemaining ∧ r' = r.advance bits := by
  obtain ⟨within, moved⟩ := passes_of_decode valid read
  have position := has.position_of_decode wellFormed valid read
  rw [moved, BitReader.position_advance] at position
  have passed : (layout.padded scope r).length = bits := by omega
  rw [passed] at within moved
  exact ⟨within, moved⟩

/-- Where as many bits are left as a request asks for, it is not refused for want of bits. -/
theorem not_isTruncation_of_readNat {kind : Layout.Kind} {width : Integer} {error : CursorError}
    (enough : width.toNat ≤ r.bitsRemaining) (refused : r.readNat width = .error error) :
    ¬(error.ofKind kind).IsTruncation := by
  rcases BitReader.readNat_eq_error_iff.mp refused with ⟨-, rfl⟩ | ⟨-, short, -⟩
  · exact id
  · omega

theorem not_isTruncation_of_readSlice {kind : Layout.Kind} {count : Integer}
    (has : 8 * count.toInt = bits) (enough : bits ≤ r.bitsRemaining)
    (stopped : readSlice kind (.literal count) scope r = .error failure) :
    ¬failure.IsTruncation := by
  rcases readSlice_eq_error_iff.mp stopped with ⟨-, rfl⟩ | ⟨-, cause, unresolved, -⟩ | ⟨-, _,
    resolved, ⟨-, rfl⟩ | ⟨-, short, -⟩⟩
  · simp [Failure.BelongsTo, Cause.category, Category.ancestors]
  · cases unresolved
  · exact id
  · cases resolved
    unfold Integer.toNat at short
    omega

theorem not_isTruncation_of_decodeItems {item : BitReader → Except Failure (Value × BitReader)}
    (moves : ∀ {r r' value}, r.Valid → item r = .ok (value, r') →
      bits ≤ r.bitsRemaining ∧ r' = r.advance bits)
    (each : ∀ {r failure}, r.Valid → bits ≤ r.bitsRemaining → item r = .error failure →
      ¬failure.IsTruncation)
    {count index : Nat} (valid : r.Valid) (enough : count * bits ≤ r.bitsRemaining)
    (stopped : decodeItems item count index r = .error failure) : ¬failure.IsTruncation := by
  -- Each item that is read leaves enough bits for those behind it.
  induction count generalizing index r with
  | zero => cases stopped
  | succ count ih =>
    rw [Nat.succ_mul] at enough
    rcases decodeItems_succ_eq_error_iff.mp stopped with ⟨inner, here, rfl⟩ | ⟨first, r₁, read, later⟩
    · exact mt Failure.belongsTo_within.mp (each valid (by omega) here)
    · obtain ⟨within, rfl⟩ := moves valid read
      refine ih (valid.advance within) ?_ later
      rw [BitReader.bitsRemaining_advance]
      omega

theorem not_isTruncation_of_decodeSlots {slots : List Slot}
    (each : ∀ slot ∈ slots, ∀ layout, slot.layout? = some layout → ∀ {bits scope r failure},
      layout.HasBits bits → r.Valid → bits ≤ r.bitsRemaining →
      layout.decode scope r = .error failure → ¬failure.IsTruncation)
    (wellFormed : WellFormedSlots slots) (has : SlotsHaveBits slots bits) {record : Entries}
    (valid : r.Valid) (enough : bits ≤ r.bitsRemaining)
    (stopped : decodeSlots slots record r = .error failure) : ¬failure.IsTruncation := by
  induction slots generalizing bits record r with
  | nil => cases stopped
  | cons slot rest ih =>
    obtain ⟨inSlot, inRest⟩ := List.forall_mem_cons.mp each
    obtain ⟨layout, first, others, same, has_first, has_rest, rfl⟩ := has.of_cons wellFormed
    rcases decodeSlots_cons_eq_error_iff.mp stopped with ⟨_, _, -, rfl⟩ | ⟨_, same', outcome⟩
    · exact id
    rw [same] at same'
    cases same'
    rcases outcome with ⟨inner, here, rfl⟩ | ⟨value, r₁, read, ⟨-, rfl⟩ | ⟨record₁, -, later⟩⟩
    · exact mt Slot.belongsTo_place.mp (inSlot layout same has_first valid (by omega) here)
    · simp [Failure.BelongsTo, Cause.category, Category.ancestors]
    · have wellFormed_first := wellFormed.of_mem List.mem_cons_self same
      obtain ⟨within, rfl⟩ := has_first.advance_of_decode wellFormed_first valid read
      refine ih inRest wellFormed.2 has_rest (valid.advance within) ?_ later
      rw [BitReader.bitsRemaining_advance]
      omega

/-- Where as many bits are left as the size of a layout, its reading does not stop for want of bits. -/
theorem Layout.HasBits.not_isTruncation {layout : Layout} (has : layout.HasBits bits)
    (wellFormed : layout.WellFormed) (valid : r.Valid) (enough : bits ≤ r.bitsRemaining)
    (stopped : layout.decode scope r = .error failure) : ¬failure.IsTruncation := by
  induction layout using Layout.induction generalizing bits scope r failure with
  | abstract => exact wellFormed.elim
  | sequence slots ih =>
    refine not_isTruncation_of_decodeSlots ?_ wellFormed has valid enough
      (decode_sequence_eq_error_iff.mp stopped)
    intro slot member layout same bits scope r failure has valid
    exact ih slot member layout same has (wellFormed.of_mem member same) valid
  | array length element ih =>
    obtain ⟨count, each, rfl, has_element, rfl⟩ := has.array wellFormed
    rcases decode_array_eq_error_iff.mp stopped with ⟨cause, unresolved, -⟩ | ⟨_, resolved, stopped⟩
    · cases unresolved
    · cases resolved
      refine not_isTruncation_of_decodeItems ?_ ?_ valid enough stopped
      · exact fun valid read => has_element.advance_of_decode wellFormed.2 valid read
      · exact fun valid enough stopped => ih has_element wellFormed.2 valid enough stopped
  | branch discriminant cases otherwise ih =>
    rcases decode_branch_eq_error_iff.mp stopped with ⟨cause, fails, rfl⟩ | ⟨key, layout, -, chosen,
      stopped⟩
    · exact fails.not_isTruncation
    · have alternative := alternative_of_select chosen
      exact ih layout alternative (has.alternative alternative)
        (wellFormed.alternative alternative) valid enough stopped
  | bitField width =>
    have total := has.width rfl
    obtain ⟨error, refused, rfl⟩ := decode_bitField_eq_error_iff.mp stopped
    exact not_isTruncation_of_readNat (by unfold Integer.toNat; omega) refused
  | wideField width =>
    have total := has.width rfl
    obtain ⟨error, refused, rfl⟩ := decode_wideField_eq_error_iff.mp stopped
    exact not_isTruncation_of_readNat (by unfold Integer.toNat; omega) refused
  | byteSlice length =>
    obtain ⟨count, rfl, total⟩ := has.byteSlice
    exact not_isTruncation_of_readSlice total enough (decode_byteSlice_eq_error_iff.mp stopped)
  | text length encoding =>
    obtain ⟨count, rfl, total⟩ := has.text
    obtain ⟨-, e, found⟩ := wellFormed
    rcases decode_text_eq_error_iff.mp stopped with stopped | ⟨raw, r', -, stopped⟩
    · exact not_isTruncation_of_readSlice total enough stopped
    · obtain ⟨fault, -, rfl⟩ := (readText_eq_error_iff found).mp stopped
      simp [Failure.BelongsTo, Cause.category, Category.ancestors]
  | padding width =>
    have total := has.width rfl
    obtain ⟨error, refused, rfl⟩ := decode_padding_eq_error_iff.mp stopped
    rcases BitReader.skip_eq_error_iff.mp refused with ⟨-, rfl⟩ | ⟨-, short, -⟩
    · exact id
    · unfold Integer.toNat at short
      omega

end Decoding

section Encoding

variable {memory : Memory} {bits : Nat} {scope : Scope} {w w' : BitWriter} {written : List Bool}

/-- A number appends as many bits as its width. -/
theorem holds_of_writeIntWithin {value : Int} {width : Integer} (has : width.toInt = bits)
    (holds : w.Holds written) (wrote : w.writeIntWithin memory value width = .ok w') :
    ∃ added : List Bool, added.length = bits ∧ w'.Holds (written ++ added) := by
  obtain ⟨-, holds'⟩ := holds.of_writeInt (BitWriter.writeInt_of_writeIntWithin wrote)
  refine ⟨_, ?_, holds'⟩
  rw [length_bitsOfNat, Integer.toNat, has, Int.toNat_natCast]

theorem holds_of_writeSlice {kind : Layout.Kind} {count : Integer} {raw : List UInt8}
    (has : 8 * count.toInt = bits) (same : count.toInt = raw.length) (holds : w.Holds written)
    (wrote : writeSlice kind (.literal count) raw scope w = .ok w') :
    ∃ added : List Bool, added.length = bits ∧ w'.Holds (written ++ added) := by
  obtain ⟨-, wrote_raw⟩ := writeSlice_eq_ok_iff.mp wrote
  refine ⟨bitsOfBytes raw, ?_, (holds.of_writeBytes wrote_raw).2⟩
  rw [length_bitsOfBytes]
  omega

theorem holds_of_encodeItems {item : Value → BitWriter → Except Failure BitWriter}
    {items : List Value}
    (each : ∀ value ∈ items, ∀ {w w' written}, w.Holds written → item value w = .ok w' →
      ∃ added : List Bool, added.length = bits ∧ w'.Holds (written ++ added))
    {index : Nat} (holds : w.Holds written) (wrote : encodeItems item index items w = .ok w') :
    ∃ added : List Bool, added.length = items.length * bits ∧ w'.Holds (written ++ added) := by
  induction items generalizing index w written with
  | nil =>
    cases wrote
    exact ⟨[], by simp, by rwa [List.append_nil]⟩
  | cons first others ih =>
    obtain ⟨inFirst, inOthers⟩ := List.forall_mem_cons.mp each
    obtain ⟨w₁, wrote_first, wrote_others⟩ := encodeItems_cons_eq_ok_iff.mp wrote
    obtain ⟨front, length_front, holds₁⟩ := inFirst holds wrote_first
    obtain ⟨back, length_back, holds'⟩ := ih inOthers holds₁ wrote_others
    refine ⟨front ++ back, ?_, by rwa [← List.append_assoc]⟩
    rw [List.length_append, length_front, length_back, List.length_cons, Nat.succ_mul, Nat.add_comm]

theorem holds_of_encodeSlots {slots : List Slot} {record : Entries}
    (each : ∀ slot ∈ slots, ∀ layout, slot.layout? = some layout → ∀ {bits w w' written},
      layout.HasBits bits → w.Holds written →
      layout.encode memory (slot.load record) (some record) w = .ok w' →
      ∃ added : List Bool, added.length = bits ∧ w'.Holds (written ++ added))
    (wellFormed : WellFormedSlots slots) (has : SlotsHaveBits slots bits) (holds : w.Holds written)
    (wrote : encodeSlots memory slots record w = .ok w') :
    ∃ added : List Bool, added.length = bits ∧ w'.Holds (written ++ added) := by
  induction slots generalizing bits w written with
  | nil =>
    cases wrote
    obtain ⟨size, measured, total⟩ := has
    cases measured
    change (0 : Int) = bits at total
    exact ⟨[], by simp; omega, by rwa [List.append_nil]⟩
  | cons slot rest ih =>
    obtain ⟨inSlot, inRest⟩ := List.forall_mem_cons.mp each
    obtain ⟨layout, first, others, same, has_first, has_rest, rfl⟩ := has.of_cons wellFormed
    obtain ⟨_, w₁, same', wrote_first, wrote_rest⟩ :=
      (encodeSlots_cons_eq_ok_iff wellFormed.1).mp wrote
    rw [same] at same'
    cases same'
    obtain ⟨front, length_front, holds₁⟩ := inSlot layout same has_first holds wrote_first
    obtain ⟨back, length_back, holds'⟩ := ih inRest wellFormed.2 has_rest holds₁ wrote_rest
    refine ⟨front ++ back, ?_, by rwa [← List.append_assoc]⟩
    rw [List.length_append, length_front, length_back]

/-- A layout with a size appends as many bits, if the bytes and texts that it is given have the
length that it says. -/
theorem Layout.HasBits.holds_of_encode {layout : Layout} (has : layout.HasBits bits)
    (wellFormed : layout.WellFormed) {value : Value}
    (lengths : Writing.All Writing.KeepsLength ⟨layout, scope, value⟩) (holds : w.Holds written)
    (wrote : layout.encode memory value scope w = .ok w') :
    ∃ added : List Bool, added.length = bits ∧ w'.Holds (written ++ added) := by
  induction layout using Layout.induction generalizing bits scope value w w' written with
  | abstract => exact wellFormed.elim
  | sequence slots ih =>
    obtain ⟨record, rfl, wrote_slots⟩ := encode_sequence_eq_ok_iff.mp wrote
    refine holds_of_encodeSlots ?_ wellFormed has holds wrote_slots
    intro slot member layout same bits w w' written has holds wrote
    exact ih slot member layout same has (wellFormed.of_mem member same)
      ((Writing.all_sequence_iff.mp lengths).2 slot member layout same) holds wrote
  | array length element ih =>
    obtain ⟨count, each, rfl, has_element, rfl⟩ := has.array wellFormed
    obtain ⟨items, _, list, resolved, same, wrote_items⟩ := encode_array_eq_ok_iff.mp wrote
    cases resolved
    rw [Integer.toNat, same, Int.toNat_natCast]
    refine holds_of_encodeItems (fun item member w w' written holds wrote => ?_) holds wrote_items
    exact ih has_element wellFormed.2 ((Writing.all_array_iff.mp lengths).2 items list item member)
      holds wrote
  | branch discriminant cases otherwise ih =>
    obtain ⟨key, layout, found, chosen, wrote_chosen⟩ := encode_branch_eq_ok_iff.mp wrote
    have alternative := alternative_of_select chosen
    exact ih layout alternative (has.alternative alternative) (wellFormed.alternative alternative)
      (lengths.below (.alternative found chosen)) holds wrote_chosen
  | bitField width =>
    obtain ⟨n, -, wrote_number⟩ := encode_bitField_eq_ok_iff.mp wrote
    exact holds_of_writeIntWithin (has.width rfl) holds wrote_number
  | wideField width =>
    obtain ⟨n, -, wrote_number⟩ :=
      encode_bitField_eq_ok_iff.mp (encode_wideField_eq_ok_iff.mp wrote)
    exact holds_of_writeIntWithin (has.width rfl) holds wrote_number
  | byteSlice length =>
    obtain ⟨count, rfl, total⟩ := has.byteSlice
    obtain ⟨holder, raw, rfl, wrote_raw⟩ := encode_byteSlice_eq_ok_iff.mp wrote
    exact holds_of_writeSlice total (lengths.here count rfl) holds wrote_raw
  | text length encoding =>
    obtain ⟨count, rfl, total⟩ := has.text
    obtain ⟨t, raw, rfl, spelled, wrote_raw⟩ := encode_text_eq_ok_iff.mp wrote
    exact holds_of_writeSlice total (lengths.here count raw rfl spelled) holds wrote_raw
  | padding width =>
    exact holds_of_writeIntWithin (has.width rfl) holds (encode_padding_eq_ok_iff.mp wrote)

end Encoding

namespace Layout

variable {layout : Layout}

/-- The size of a layout is what its readings use and its writings append. A byte string with fewer
bits is not read, and one with as many is not truncated. The bytes of a value, if all bytes and texts
in it have the length that the layout says, are as many as the size in bytes. -/
theorem static_size (wellFormed : layout.WellFormed) {size : Integer}
    (measured : layout.encodedBits = .ok size) :
    (∀ data value r, layout.read data = .ok (value, r) → (r.position : Int) = size.toInt) ∧
      (∀ (data : List UInt8) strict failure, size.toInt ≤ 8 * data.length →
        layout.decodeBytes data strict = .error failure → ¬failure.IsTruncation) ∧
      (∀ (data : List UInt8) strict value, 8 * data.length < size.toInt →
        layout.decodeBytes data strict ≠ .ok value) ∧
      (∀ memory value w, Writing.All Writing.KeepsLength ⟨layout, none, value⟩ →
        layout.writeWithin memory value = .ok w → (w.bitLength : Int) = size.toInt) ∧
      ∀ memory value bytes, Writing.All Writing.KeepsLength ⟨layout, none, value⟩ →
        layout.encodeWithin memory value = .ok bytes →
        layout.encodedSize = .ok (bytes.length : Int) := by
  have total : size.toInt = size.toNat :=
    (Int.toNat_of_nonneg (nonneg_of_encodedBits wellFormed measured)).symm
  have has : layout.HasBits size.toNat := ⟨size, measured, total⟩
  have moves {data : List UInt8} {value r} (read : layout.read data = .ok (value, r)) :=
    has.advance_of_decode wellFormed (BitReader.valid_ofBytes data) read
  have writes {memory value w} (lengths : Writing.All Writing.KeepsLength ⟨layout, none, value⟩)
      (wrote : layout.writeWithin memory value = .ok w) :=
    has.holds_of_encode wellFormed lengths BitWriter.holds_empty wrote
  refine ⟨?_, ?_, ?_, ?_, ?_⟩
  · intro data value r read
    obtain ⟨-, rfl⟩ := moves read
    rw [BitReader.position_advance, BitReader.position_ofBytes]
    omega
  · intro data strict failure enough outcome
    rcases bind_eq_error_iff.mp outcome with stopped | ⟨⟨value, r⟩, -, leftOver⟩
    · refine has.not_isTruncation wellFormed (BitReader.valid_ofBytes data) ?_ stopped
      rw [BitReader.bitsRemaining_ofBytes]
      omega
    · -- Bytes left over are no want of bits.
      dsimp only at leftOver
      split_ifs at leftOver
      cases leftOver
      simp [Failure.BelongsTo, Cause.category, Category.ancestors]
  · intro data strict value short outcome
    obtain ⟨⟨value, r⟩, read, -⟩ := bind_eq_ok_iff.mp outcome
    have within := (moves read).1
    rw [BitReader.bitsRemaining_ofBytes] at within
    omega
  · intro memory value w lengths wrote
    obtain ⟨added, length, holds⟩ := writes lengths wrote
    rw [holds.bitLength, List.nil_append, length, total]
  · intro memory value bytes lengths outcome
    obtain ⟨w, wrote, rfl⟩ := map_eq_ok_iff.mp outcome
    obtain ⟨added, length, holds⟩ := writes lengths wrote
    rw [encodedSize, measured, holds.length_toBytes, List.nil_append, length]
    change Except.ok ((size.toInt + 7) / 8) = _
    rw [total]
    simp

/-- A sort, padding, two marks, and a byte that is a character for one sort. -/
def parcel : Layout :=
  .sequence
    [.named "sort" (.bitField 3), .padding (.padding 5) none,
      .named "marks" (.array (.literal 2) (.bitField 4)),
      .named "label" (.branch "sort" [(1, .text (.literal 1) "ascii")]
        (some (.byteSlice (.literal 1))))]

/-- A parcel with a character. -/
def parcelRecord : Entries :=
  [(.text "sort", .int 1), (.text "marks", .list [.int 10, .int 11]), (.text "label", .text "C")]

theorem keepsLength_parcelRecord :
    Writing.All Writing.KeepsLength ⟨parcel, none, .dict parcelRecord⟩ := by
  refine Writing.all_sequence_iff.mpr ⟨trivial, fun slot member layout same => ?_⟩
  simp only [List.mem_cons, List.not_mem_nil, or_false] at member
  rcases member with rfl | rfl | rfl | rfl <;> cases same
  · exact Writing.all_of_isLeaf trivial trivial
  · exact Writing.all_of_isLeaf trivial trivial
  · refine Writing.all_array_iff.mpr ⟨trivial, fun items list item member => ?_⟩
    exact Writing.all_of_isLeaf trivial trivial
  · refine Writing.all_branch_iff.mpr ⟨trivial, fun key layout found chosen => ?_⟩
    -- The sort is the one with a character, whose text is a single byte.
    have sort : resolveField (some parcelRecord) "sort" = .ok 1 := by cbv
    rw [sort] at found
    cases found
    cases chosen
    refine Writing.all_of_isLeaf trivial ?_
    intro count raw resolved spelled
    cases resolved
    have bytes : EncodingName.encode "ascii" "C" = .ok [0x43] := by cbv
    change EncodingName.encode "ascii" "C" = .ok raw at spelled
    rw [bytes] at spelled
    cases spelled
    rfl

theorem static_size_parcel :
    parcel.WellFormed ∧ parcel.encodedBits = .ok 24 ∧
      (∃ value r, parcel.read [0x20, 0xAB, 0x43, 0xFF] = .ok (value, r) ∧ (r.position : Int) = 24) ∧
      (∃ failure, parcel.decodeBytes [0x20, 0xAB, 0x83] false = .error failure ∧
        ¬failure.IsTruncation) ∧
      (∀ value, parcel.decodeBytes [0x20, 0xAB] false ≠ .ok value) ∧
      Writing.All Writing.KeepsLength ⟨parcel, none, .dict parcelRecord⟩ ∧
      (∃ w, parcel.writeWithin .ordinary (.dict parcelRecord) = .ok w ∧ (w.bitLength : Int) = 24) ∧
      ∃ bytes, parcel.encodeWithin .ordinary (.dict parcelRecord) = .ok bytes ∧
        parcel.encodedSize = .ok (bytes.length : Int) := by
  have wellFormed : parcel.WellFormed := by decide +kernel
  have measured : parcel.encodedBits = .ok 24 := by rfl
  obtain ⟨readings, enough, short, writings, sizes⟩ := static_size wellFormed measured
  have read : parcel.read [0x20, 0xAB, 0x43, 0xFF] =
      .ok (.dict parcelRecord, ⟨#[0x20, 0xAB, 0x43, 0xFF], 3, 0⟩) := by cbv
  have stopped : parcel.decodeBytes [0x20, 0xAB, 0x83] false =
      .error (.located [.field "label"] (.undecodableText "ascii"
        ⟨"ascii", 0x83, 0, 1, .ordinal 128⟩)) := by cbv
  have wrote : parcel.writeWithin .ordinary (.dict parcelRecord) =
      .ok ⟨#[0x20, 0xAB, 0x43], 0⟩ := by cbv
  have encoded : parcel.encodeWithin .ordinary (.dict parcelRecord) = .ok [0x20, 0xAB, 0x43] := by
    cbv
  exact ⟨wellFormed, measured, ⟨_, _, read, readings _ _ _ read⟩,
    ⟨_, stopped, enough _ _ _ (by decide) stopped⟩, fun value => short _ _ value (by decide),
    keepsLength_parcelRecord, ⟨_, wrote, writings _ _ _ keepsLength_parcelRecord wrote⟩,
    ⟨_, encoded, sizes _ _ _ keepsLength_parcelRecord encoded⟩⟩

end Layout

end BitLayout
