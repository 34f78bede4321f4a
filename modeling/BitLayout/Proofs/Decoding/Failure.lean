import BitLayout.Proofs.Decoding.Success
import BitLayout.Proofs.Failure

/-!
# Failing decoding, layout by layout

Why a layout stops reading, in the order in which it looks for faults. A step that fails names its
own cause or passes on the failure of a part, seen from one level further out. Together with the
conditions of success these statements say all that a reading can come to.

## Main definitions

* `CursorError.ofKind`: a refused request on behalf of a layout

## Main results

* `BitReader.readNat_eq_error_iff`, `readSlice_eq_error_iff`, `readText_eq_error_iff`: the leaves
* `Layout.decode_array_eq_error_iff`, `Layout.decode_branch_eq_error_iff`, and so on: one for each
  layout
* `decodeSlots_cons_eq_error_iff`, `decodeItems_succ_eq_error_iff`: slots and items one after another
-/

namespace BitLayout

-- The equations of the decoder are made once here, not by every proof that waits for them.
attribute [local simp] Layout.decode decodeSlots decodeCase? decodeItems

/-- A refused request to a reader on behalf of a layout: running out of bits is a truncation. -/
def CursorError.ofKind (kind : Layout.Kind) : CursorError → Failure
  | .outOfBits need available => .here (.truncated kind need available)
  | error => .cursor error

section Leaves

variable {r : BitReader} {failure : Failure} {kind : Layout.Kind}

theorem ofCursor_eq_mapError {α : Type} (step : Except CursorError α) :
    ofCursor kind step = step.mapError (CursorError.ofKind kind) := by
  cases step with
  | ok a => rfl
  | error error => cases error <;> rfl

theorem ofCursor_eq_error_iff {α : Type} {step : Except CursorError α} :
    ofCursor kind step = .error failure ↔
      ∃ error, step = .error error ∧ error.ofKind kind = failure := by
  rw [ofCursor_eq_mapError, mapError_eq_error_iff]

/-- A number is refused for its width, or else because too few bits are left. -/
theorem BitReader.readNat_eq_error_iff {width : Integer} {error : CursorError} :
    r.readNat width = .error error ↔
      (width.toInt < 1 ∧ error = .widthNotPositive width) ∨
        (1 ≤ width.toInt ∧ r.bitsRemaining < width.toNat ∧
          error = .outOfBits width r.bitsRemaining) := by
  rw [readNat, require]
  by_cases narrow : width.toInt < 1
  · have wide : ¬1 ≤ width.toInt := by omega
    simp [narrow, wide, eq_comm]
  · have positive : 1 ≤ width.toInt := by omega
    have nonnegative : ¬width.toInt < 0 := by omega
    by_cases short : r.bitsRemaining < width.toNat <;>
      simp [narrow, positive, nonnegative, short, bind, Except.bind, eq_comm]

/-- Bits are not passed over if their number is negative, or else if too few are left. -/
theorem BitReader.skip_eq_error_iff {count : Integer} {error : CursorError} :
    r.skip count = .error error ↔
      (count.toInt < 0 ∧ error = .countNegative count) ∨
        (0 ≤ count.toInt ∧ r.bitsRemaining < count.toNat ∧
          error = .outOfBits count r.bitsRemaining) := by
  rw [BitReader.skip_eq]
  by_cases negative : count.toInt < 0
  · have low : ¬0 ≤ count.toInt := by omega
    simp [negative, low, eq_comm]
  · have nonnegative : 0 ≤ count.toInt := by omega
    by_cases short : r.bitsRemaining < count.toNat <;>
      simp [negative, nonnegative, short, eq_comm]

/-- Whole bytes are refused inside a byte, or else for a negative count, or else because too few are
left. -/
theorem BitReader.readBytes_eq_error_iff {count : Integer} {error : CursorError} :
    r.readBytes count = .error error ↔
      (r.bitOffset ≠ 0 ∧ error = .unalignedRead r.bitOffset) ∨
        (r.bitOffset = 0 ∧ count.toInt < 0 ∧
          error = .countNegative (.number (count.toInt * 8))) ∨
        (r.bitOffset = 0 ∧ 0 ≤ count.toInt ∧ r.bitsRemaining < 8 * count.toNat ∧
          error = .outOfBits (.number (count.toInt * 8)) r.bitsRemaining) := by
  rw [BitReader.readBytes_eq]
  by_cases aligned : r.bitOffset = 0
  · by_cases negative : count.toInt < 0
    · have low : ¬0 ≤ count.toInt := by omega
      simp [aligned, negative, low, eq_comm]
    · have nonnegative : 0 ≤ count.toInt := by omega
      by_cases short : r.bitsRemaining < 8 * count.toNat <;>
        simp [aligned, negative, nonnegative, short, eq_comm]
  · simp [aligned, eq_comm]

/-- A slice is looked at for its place, then for its length, and then for enough bytes. -/
theorem readSlice_eq_error_iff {length : Length} {scope : Scope} :
    readSlice kind length scope r = .error failure ↔
      (r.bitOffset ≠ 0 ∧ Failure.here (.misaligned kind r.bitOffset) = failure) ∨
        (r.bitOffset = 0 ∧ ∃ cause, length.resolve scope = .error cause ∧ Failure.here cause = failure) ∨
        (r.bitOffset = 0 ∧ ∃ count, length.resolve scope = .ok count ∧
          ((count.toInt < 0 ∧
              Failure.cursor (.countNegative (.number (count.toInt * 8))) = failure) ∨
            (0 ≤ count.toInt ∧ r.bitsRemaining < 8 * count.toNat ∧
              Failure.here (.truncated kind (.number (count.toInt * 8)) r.bitsRemaining) =
                failure))) := by
  rw [readSlice]
  by_cases aligned : r.bitOffset = 0
  · rw [if_neg (by simpa using aligned)]
    simp only [bind_eq_error_iff, mapError_eq_error_iff, mapError_eq_ok_iff, ofCursor_eq_error_iff,
      BitReader.readBytes_eq_error_iff, aligned, ne_eq, not_true_eq_false, false_and, true_and,
      false_or]
    refine or_congr Iff.rfl (exists_congr fun count => and_congr_right fun _ => ?_)
    -- The request to the reader is refused in two ways; the layout reports each in its own words.
    constructor
    · rintro ⟨error, ⟨negative, rfl⟩ | ⟨nonnegative, short, rfl⟩, rfl⟩
      · exact Or.inl ⟨negative, rfl⟩
      · exact Or.inr ⟨nonnegative, short, rfl⟩
    · rintro (⟨negative, rfl⟩ | ⟨nonnegative, short, rfl⟩)
      · exact ⟨_, Or.inl ⟨negative, rfl⟩, rfl⟩
      · exact ⟨_, Or.inr ⟨nonnegative, short, rfl⟩, rfl⟩
  · rw [if_pos aligned]
    simp [aligned]

/-- Bytes in an encoding that is known are refused for their content only. -/
theorem readText_eq_error_iff {encoding : Text} {raw : List UInt8} {e : Encoding}
    (found : EncodingName.find encoding = .encoding e) :
    readText encoding raw = .error failure ↔
      ∃ fault, e.decode raw = .error fault ∧ Failure.here (.undecodableText encoding fault) = failure := by
  have outcome : EncodingName.decode encoding raw = (e.decode raw).mapError .content := by
    rw [EncodingName.decode, found]
  rw [readText, outcome]
  cases e.decode raw with
  | error fault =>
    change Except.error (Failure.here (.undecodableText encoding fault)) = .error failure ↔ _
    simp
  | ok t =>
    change Except.ok t = .error failure ↔ _
    simp

end Leaves

namespace Layout

variable {scope : Scope} {r : BitReader} {failure : Failure}

theorem decode_sequence_eq_error_iff {slots : List Slot} :
    (sequence slots).decode scope r = .error failure ↔
      decodeSlots slots [] r = .error failure := by
  rw [decode]
  simp [bind_eq_error_iff]

/-- An array stops if its length is not found or one of its items stops. -/
theorem decode_array_eq_error_iff {length : Length} {element : Layout} :
    (array length element).decode scope r = .error failure ↔
      (∃ cause, length.resolve scope = .error cause ∧ Failure.here cause = failure) ∨
        ∃ count, length.resolve scope = .ok count ∧
          decodeItems (fun r => element.decode none r) count.toNat 0 r = .error failure := by
  rw [decode]
  simp [bind_eq_error_iff, mapError_eq_error_iff, mapError_eq_ok_iff]

/-- A branch stops if it chooses no alternative or the one that it chooses stops. -/
theorem decode_branch_eq_error_iff {discriminant : Text} {cases : List (Integer × Layout)}
    {otherwise : Option Layout} :
    (branch discriminant cases otherwise).decode scope r = .error failure ↔
      (∃ cause, ChoiceFails scope discriminant cases otherwise cause ∧ Failure.here cause = failure) ∨
        ∃ key layout, resolveField scope discriminant = .ok key ∧
          select cases otherwise key = some layout ∧
          layout.decode scope r = .error failure := by
  cases scope with
  | none => simp [decode, ChoiceFails, resolveField]
  | some record =>
    rw [decode_branch_eq]
    simp only [bind_eq_error_iff, mapError_eq_error_iff, mapError_eq_ok_iff, ChoiceFails,
      reduceCtorEq, false_and, false_or, ne_eq, not_false_eq_true, true_and]
    cases found : resolveField (some record) discriminant with
    | error cause => simp
    | ok key =>
      simp only [reduceCtorEq, false_and, exists_false, false_or, Except.ok.injEq, exists_eq_left']
      cases chosen : select cases otherwise key <;> simp [chosen]

theorem decode_bitField_eq_error_iff {width : Integer} :
    (bitField width).decode scope r = .error failure ↔
      ∃ error, r.readNat width = .error error ∧ error.ofKind .bitField = failure := by
  rw [decode]
  simp [bind_eq_error_iff, ofCursor_eq_error_iff]

theorem decode_wideField_eq_error_iff {width : Integer} :
    (wideField width).decode scope r = .error failure ↔
      ∃ error, r.readNat width = .error error ∧ error.ofKind .wideField = failure := by
  rw [decode]
  simp [bind_eq_error_iff, ofCursor_eq_error_iff]

theorem decode_byteSlice_eq_error_iff {length : Length} :
    (byteSlice length).decode scope r = .error failure ↔
      readSlice .byteSlice length scope r = .error failure := by
  rw [decode]
  simp [bind_eq_error_iff]

theorem decode_text_eq_error_iff {length : Length} {encoding : Text} :
    (text length encoding).decode scope r = .error failure ↔
      readSlice .text length scope r = .error failure ∨
        ∃ raw r', readSlice .text length scope r = .ok (raw, r') ∧
          readText encoding raw = .error failure := by
  rw [decode]
  simp [bind_eq_error_iff]

theorem decode_padding_eq_error_iff {width : Integer} :
    (padding width).decode scope r = .error failure ↔
      ∃ error, r.skip width = .error error ∧ error.ofKind .padding = failure := by
  rw [decode]
  simp [bind_eq_error_iff, ofCursor_eq_error_iff]

end Layout

/-- Slots stop at one that is none, at one whose layout stops, at an embedded layout that reads no
record, or later. -/
theorem decodeSlots_cons_eq_error_iff {slot : Slot} {rest : List Slot} {record : Entries}
    {r : BitReader} {failure : Failure} :
    decodeSlots (slot :: rest) record r = .error failure ↔
      (∃ typeName written, slot = .foreign typeName written ∧
        Failure.layout (.unsupportedSlot typeName) = failure) ∨
      ∃ layout, slot.layout? = some layout ∧
        ((∃ inner, layout.decode (some record) r = .error inner ∧ slot.place inner = failure) ∨
          ∃ value r₁, layout.decode (some record) r = .ok (value, r₁) ∧
            ((slot.store record value = none ∧
                Failure.here (.embeddedNotRecord layout.kind value.typeName) = failure) ∨
              ∃ record₁, slot.store record value = some record₁ ∧
                decodeSlots rest record₁ r₁ = .error failure)) := by
  cases slot with
  | named name layout | padding layout label =>
    rw [decodeSlots]
    simp [bind_eq_error_iff, mapError_eq_error_iff, mapError_eq_ok_iff, Slot.layout?, Slot.store,
      Slot.place]
  | embedded layout =>
    rw [decodeSlots]
    simp only [bind_eq_error_iff, Prod.exists, Slot.layout?, Option.some.injEq, Slot.place,
      exists_eq_left', reduceCtorEq, false_and, exists_false, false_or, exists_eq_right]
    refine or_congr Iff.rfl (exists_congr fun value => exists_congr fun r₁ => ?_)
    -- Only a record can be stored; any other value is refused by the name of its type.
    cases value <;> simp [Slot.store]
  | foreign typeName written =>
    rw [decodeSlots]
    simp [Slot.layout?]

/-- Items stop where the first of them stops. -/
theorem decodeItems_succ_eq_error_iff {r : BitReader} {failure : Failure}
    {item : BitReader → Except Failure (Value × BitReader)} {count index : Nat} :
    decodeItems item (count + 1) index r = .error failure ↔
      (∃ inner, item r = .error inner ∧ inner.within (.index (index : Nat)) = failure) ∨
        ∃ first r₁, item r = .ok (first, r₁) ∧
          decodeItems item count (index + 1) r₁ = .error failure := by
  rw [decodeItems]
  simp [bind_eq_error_iff, mapError_eq_error_iff, mapError_eq_ok_iff]

end BitLayout
