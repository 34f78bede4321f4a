import BitLayout.Proofs.Encoding.Success
import BitLayout.Proofs.Failure

/-!
# Failing encoding, layout by layout

Why a layout refuses a value. The value is looked at before the scope is, except that bytes and texts
have to start at a byte boundary first. Padding has no value to refuse: like any number it is refused
for its width only.

## Main results

* `BitWriter.writeIntWithin_eq_error_iff`, `writeSlice_eq_error_iff`, `writeText_eq_error_iff`:
  the leaves
* `Layout.encode_array_eq_error_iff`, `Layout.encode_branch_eq_error_iff`, and so on: one for each
  layout
* `encodeSlots_cons_eq_error_iff`, `encodeItems_cons_eq_error_iff`: slots and items one after another
* `exists_slot_of_encodeSlots`, `encodeItems_eq_error_iff`: the slot or item that is refused
-/

namespace BitLayout

-- The equations of the encoder are made once here, not by every proof that waits for them.
attribute [local simp] Layout.encode encodeSlots encodeCase? encodeItems

section Leaves

variable {memory : Memory} {w : BitWriter} {failure : Failure} {kind : Layout.Kind}

/-- A number is refused if there is no room for it, or else for its width. -/
theorem BitWriter.writeIntWithin_eq_error_iff {value : Int} {width : Integer} {error : CursorError} :
    w.writeIntWithin memory value width = .error error ↔
      memory.reserve width.toNat = .error error ∨
        (memory.hasRoom width.toNat = true ∧ width.toInt < 1 ∧ error = .widthNotPositive width) := by
  have refused : w.writeInt value width = .error error ↔
      width.toInt < 1 ∧ error = .widthNotPositive width := by
    rw [writeInt]
    by_cases narrow : width.toInt < 1
    · simp [narrow, eq_comm]
    · simp [narrow]
  rw [writeIntWithin, bind_eq_error_iff, refused]
  simp [Memory.reserve_eq_ok_iff]

/-- A value is refused as a number if it is none, or else as the number it is. -/
theorem writeInteger_eq_error_iff {width : Integer} {value : Value} :
    writeInteger memory kind width value w = .error failure ↔
      (value = .null ∧ Failure.here (.missingInteger kind) = failure) ∨
        (value ≠ .null ∧ value.integer? = none ∧
          Failure.here (.notInteger kind value.typeName) = failure) ∨
        ∃ n error, value.integer? = some n ∧
          w.writeIntWithin memory n.toInt width = .error error ∧ Failure.cursor error = failure := by
  cases value <;> simp [writeInteger, Value.integer?, mapError_eq_error_iff]

/-- A slice is refused for its place, or else for its length. -/
theorem writeSlice_eq_error_iff {length : Length} {raw : List UInt8} {scope : Scope} :
    writeSlice kind length raw scope w = .error failure ↔
      (w.bitOffset ≠ 0 ∧ Failure.here (.misaligned kind w.bitOffset) = failure) ∨
        (w.bitOffset = 0 ∧
          ∃ cause, length.resolve scope = .error cause ∧ Failure.here cause = failure) := by
  rw [writeSlice]
  by_cases aligned : w.bitOffset = 0
  · -- At a byte boundary the writer itself accepts all bytes.
    have accepted : w.writeBytes raw = .ok { w with bytes := w.bytes ++ raw } := if_pos aligned
    simp [aligned, accepted, bind_eq_error_iff, mapError_eq_error_iff]
  · simp [aligned]

/-- A text in an encoding that is known is refused for its content only. -/
theorem writeText_eq_error_iff {encoding t : Text} {e : Encoding}
    (found : EncodingName.find encoding = .encoding e) :
    writeText encoding t = .error failure ↔
      ∃ fault, e.encode t = .error fault ∧
        Failure.here (.unencodableText encoding fault) = failure := by
  have outcome : EncodingName.encode encoding t = (e.encode t).mapError .content := by
    rw [EncodingName.encode, found]
  rw [writeText, outcome]
  cases e.encode t with
  | error fault =>
    change Except.error (Failure.here (.unencodableText encoding fault)) = .error failure ↔ _
    simp
  | ok raw =>
    change Except.ok raw = .error failure ↔ _
    simp

end Leaves

namespace Layout

variable {memory : Memory} {scope : Scope} {value : Value} {w : BitWriter} {failure : Failure}

theorem encode_sequence_eq_error_iff {slots : List Slot} :
    (sequence slots).encode memory value scope w = .error failure ↔
      ((∀ record, value ≠ .dict record) ∧ Failure.here (.notRecord value.typeName) = failure) ∨
        ∃ record, value = .dict record ∧ encodeSlots memory slots record w = .error failure := by
  cases value <;> simp [encode]

/-- An array refuses what has no items, then a length that is not found or not met, then an item. -/
theorem encode_array_eq_error_iff {length : Length} {element : Layout} :
    (array length element).encode memory value scope w = .error failure ↔
      (value.items? = none ∧ Failure.here (.notList value.typeName) = failure) ∨
        ∃ items, value.items? = some items ∧
          ((∃ cause, length.resolve scope = .error cause ∧ Failure.here cause = failure) ∨
            ∃ count, length.resolve scope = .ok count ∧
              ((count.toInt ≠ items.length ∧
                  Failure.here (.wrongLength count items.length) = failure) ∨
                (count.toInt = items.length ∧
                  encodeItems (fun item w => element.encode memory item none w) 0 items w =
                    .error failure))) := by
  rw [encode]
  cases value.items? with
  | none => simp
  | some items =>
    simp only [bind_eq_error_iff, mapError_eq_error_iff, mapError_eq_ok_iff, reduceCtorEq, false_and,
      false_or, Option.some.injEq, exists_eq_left']
    refine or_congr Iff.rfl (exists_congr fun count => and_congr_right fun _ => ?_)
    by_cases same : count.toInt = items.length <;> simp [same]

/-- A branch refuses to choose, or the alternative that it chooses refuses. -/
theorem encode_branch_eq_error_iff {discriminant : Text} {cases : List (Integer × Layout)}
    {otherwise : Option Layout} :
    (branch discriminant cases otherwise).encode memory value scope w = .error failure ↔
      (∃ cause, ChoiceFails scope discriminant cases otherwise cause ∧
          Failure.here cause = failure) ∨
        ∃ key layout, resolveField scope discriminant = .ok key ∧
          select cases otherwise key = some layout ∧
          layout.encode memory value scope w = .error failure := by
  cases scope with
  | none => simp [encode, ChoiceFails, resolveField]
  | some record =>
    rw [encode_branch_eq]
    simp only [bind_eq_error_iff, mapError_eq_error_iff, mapError_eq_ok_iff, ChoiceFails,
      reduceCtorEq, false_and, false_or, ne_eq, not_false_eq_true, true_and]
    cases found : resolveField (some record) discriminant with
    | error cause => simp
    | ok key =>
      simp only [reduceCtorEq, false_and, exists_false, false_or, Except.ok.injEq, exists_eq_left']
      cases chosen : select cases otherwise key <;> simp [chosen]

theorem encode_bitField_eq_error_iff {width : Integer} :
    (bitField width).encode memory value scope w = .error failure ↔
      writeInteger memory .bitField width value w = .error failure := by
  rw [encode]

theorem encode_wideField_eq_error_iff {width : Integer} :
    (wideField width).encode memory value scope w = .error failure ↔
      writeInteger memory .wideField width value w = .error failure := by
  rw [encode]

theorem encode_byteSlice_eq_error_iff {length : Length} :
    (byteSlice length).encode memory value scope w = .error failure ↔
      ((∀ holder raw, value ≠ .bytes holder raw) ∧
          Failure.here (.notBytes value.typeName) = failure) ∨
        ∃ holder raw, value = .bytes holder raw ∧
          writeSlice .byteSlice length raw scope w = .error failure := by
  cases value <;> simp [encode]

theorem encode_text_eq_error_iff {length : Length} {encoding : Text} :
    (text length encoding).encode memory value scope w = .error failure ↔
      ((∀ t, value ≠ .text t) ∧ Failure.here (.notText value.typeName) = failure) ∨
        ∃ t, value = .text t ∧
          (writeText encoding t = .error failure ∨
            ∃ raw, writeText encoding t = .ok raw ∧
              writeSlice .text length raw scope w = .error failure) := by
  cases value <;> simp [encode, bind_eq_error_iff]

theorem encode_padding_eq_error_iff {width : Integer} :
    (padding width).encode memory value scope w = .error failure ↔
      ∃ error, w.writeIntWithin memory 0 width = .error error ∧ Failure.cursor error = failure := by
  rw [encode, writePadding, BitWriter.writeZeros, mapError_eq_error_iff]

end Layout

/-- Slots are refused at the first one whose layout refuses what it takes from the record. -/
theorem encodeSlots_cons_eq_error_iff {memory : Memory} {slot : Slot} {rest : List Slot}
    {record : Entries} {w : BitWriter} {failure : Failure} (wellFormed : slot.WellFormed) :
    encodeSlots memory (slot :: rest) record w = .error failure ↔
      ∃ layout, slot.layout? = some layout ∧
        ((∃ inner, layout.encode memory (slot.load record) (some record) w = .error inner ∧
            slot.place inner = failure) ∨
          ∃ w₁, layout.encode memory (slot.load record) (some record) w = .ok w₁ ∧
            encodeSlots memory rest record w₁ = .error failure) := by
  cases slot with
  | named name layout | embedded layout =>
    rw [encodeSlots]
    simp [bind_eq_error_iff, mapError_eq_error_iff, mapError_eq_ok_iff, Slot.layout?, Slot.load,
      Slot.place]
  | padding layout label =>
    obtain ⟨isPadding, -⟩ := wellFormed
    cases layout with
    | padding width =>
      -- Padding is refused by the writer only, which knows nothing of labels.
      rw [encodeSlots]
      simp [bind_eq_error_iff, mapError_eq_error_iff, writePadding, BitWriter.writeZeros, Slot.layout?, Layout.width?]
    | _ => cases isPadding
  | foreign => exact wellFormed.elim

/-- Items are refused at the first one that is. -/
theorem encodeItems_cons_eq_error_iff {item : Value → BitWriter → Except Failure BitWriter}
    {index : Nat} {first : Value} {others : List Value} {w : BitWriter} {failure : Failure} :
    encodeItems item index (first :: others) w = .error failure ↔
      (∃ inner, item first w = .error inner ∧ inner.within (.index (index : Nat)) = failure) ∨
        ∃ w₁, item first w = .ok w₁ ∧ encodeItems item (index + 1) others w₁ = .error failure := by
  rw [encodeItems]
  simp only [bind_eq_error_iff, mapError_eq_error_iff, mapError_eq_ok_iff]

/-- Slots that are refused are written up to one of them, which is refused. -/
theorem exists_slot_of_encodeSlots {memory : Memory} {slots : List Slot}
    (wellFormed : WellFormedSlots slots) {record : Entries} {w : BitWriter} {failure : Failure}
    (stopped : encodeSlots memory slots record w = .error failure) :
    ∃ (index : Nat) (slot : Slot) (layout : Layout) (w₁ : BitWriter) (inner : Failure),
      slots[index]? = some slot ∧ slot.layout? = some layout ∧
        encodeSlots memory (slots.take index) record w = .ok w₁ ∧
        layout.encode memory (slot.load record) (some record) w₁ = .error inner ∧
        slot.place inner = failure := by
  induction slots generalizing w with
  | nil => cases stopped
  | cons slot rest ih =>
    obtain ⟨layout, same, ⟨inner, here, placed⟩ | ⟨w₁, wrote, later⟩⟩ :=
      (encodeSlots_cons_eq_error_iff wellFormed.1).mp stopped
    · exact ⟨0, slot, layout, w, inner, rfl, same, rfl, here, placed⟩
    · obtain ⟨index, slot', layout', w₂, inner, there, same', before, here, placed⟩ :=
        ih wellFormed.2 later
      refine ⟨index + 1, slot', layout', w₂, inner, there, same', ?_, here, placed⟩
      exact (encodeSlots_cons_eq_ok_iff wellFormed.1).mpr ⟨layout, w₁, same, wrote, before⟩

/-- Items are refused exactly if they are written up to one of them, which is refused. -/
theorem encodeItems_eq_error_iff {item : Value → BitWriter → Except Failure BitWriter}
    {start : Nat} {items : List Value} {w : BitWriter} {failure : Failure} :
    encodeItems item start items w = .error failure ↔
      ∃ (index : Nat) (value : Value) (w₁ : BitWriter) (inner : Failure),
        items[index]? = some value ∧ encodeItems item start (items.take index) w = .ok w₁ ∧
          item value w₁ = .error inner ∧
          inner.within (.index (start + index : Nat)) = failure := by
  induction items generalizing start w with
  | nil => simp [encodeItems]
  | cons first others ih =>
    rw [encodeItems_cons_eq_error_iff]
    simp only [ih]
    constructor
    · rintro (⟨inner, here, placed⟩ | ⟨w₁, wrote, index, value, w₂, inner, there, before, here, placed⟩)
      · exact ⟨0, first, w, inner, rfl, rfl, here, placed⟩
      · refine ⟨index + 1, value, w₂, inner, there, ?_, here, ?_⟩
        · exact encodeItems_cons_eq_ok_iff.mpr ⟨w₁, wrote, before⟩
        · rwa [Nat.add_right_comm] at placed
    · rintro ⟨index, value, w₁, inner, there, before, here, placed⟩
      cases index with
      | zero =>
        cases there
        cases before
        exact Or.inl ⟨inner, here, placed⟩
      | succ index =>
        obtain ⟨w₂, wrote, before⟩ := encodeItems_cons_eq_ok_iff.mp before
        refine Or.inr ⟨w₂, wrote, index, value, w₁, inner, there, before, here, ?_⟩
        rwa [Nat.add_right_comm, Nat.add_assoc]

end BitLayout
