import BitLayout.Proofs.Decoding.Padding

/-!
# Reading past padding

The bits of padding do not matter to a reading that succeeds: from every other place at the same bit
offset whose bits agree outside the padding, the same value is read. Clearing the padding is one way
to get there.

## Main definitions

* `masked`: bits with those of the padding cleared
* `BitReader.Agrees`: one reader has the same bits before it as another one, outside the padding

## Main results

* `Layout.decode_of_agrees`: padding does not matter to a successful reading
-/

namespace BitLayout

/-- As many bits as there are marks, those marked as padding cleared. -/
def masked (bits padded : List Bool) : List Bool :=
  List.zipWith (fun bit isPadding => bit && !isPadding) bits padded

section Masked

variable {bits padded front back : List Bool}

@[simp] theorem masked_nil (bits : List Bool) : masked bits [] = [] := List.zipWith_nil_right

theorem length_masked (enough : padded.length ≤ bits.length) :
    (masked bits padded).length = padded.length := by
  rw [masked, List.length_zipWith, Nat.min_eq_right enough]

theorem masked_append (enough : front.length ≤ bits.length) :
    masked bits (front ++ back) = masked bits front ++ masked (bits.drop front.length) back := by
  induction front generalizing bits with
  | nil => simp
  | cons mark front ih =>
    cases bits with
    | nil => simp at enough
    | cons bit bits =>
      rw [List.length_cons, List.length_cons] at enough
      exact congrArg _ (ih (by omega))

/-- Bits behind the marked ones do not matter. -/
theorem masked_take {count : Nat} (within : padded.length ≤ count) :
    masked (bits.take count) padded = masked bits padded := by
  induction padded generalizing bits count with
  | nil => simp
  | cons mark padded ih =>
    cases count with
    | zero => cases within
    | succ count =>
      cases bits with
      | nil => rfl
      | cons bit bits => exact congrArg _ (ih (Nat.le_of_succ_le_succ within))

/-- Bits outside the padding are kept. -/
theorem masked_replicate_false (bits : List Bool) (width : Nat) :
    masked bits (List.replicate width false) = bits.take width := by
  induction width generalizing bits with
  | zero => simp
  | succ width ih =>
    cases bits with
    | nil => rfl
    | cons bit bits =>
      rw [List.replicate_succ, List.take_succ_cons, ← ih]
      simp [masked]

/-- Bits of padding are cleared. -/
theorem masked_replicate_true {width : Nat} (enough : width ≤ bits.length) :
    masked bits (List.replicate width true) = List.replicate width false := by
  induction width generalizing bits with
  | zero => simp
  | succ width ih =>
    cases bits with
    | nil => simp at enough
    | cons bit bits =>
      have enough' : width ≤ bits.length := Nat.le_of_succ_le_succ enough
      rw [List.replicate_succ, List.replicate_succ, ← ih enough']
      simp [masked]

/-- Clearing the padding again changes nothing. -/
theorem masked_masked_append (enough : padded.length ≤ bits.length) (more : List Bool) :
    masked (masked bits padded ++ more) padded = masked bits padded := by
  induction padded generalizing bits with
  | nil => simp
  | cons mark padded ih =>
    cases bits with
    | nil => simp at enough
    | cons bit bits =>
      have again := ih (Nat.le_of_succ_le_succ enough)
      simp only [masked] at again
      simp [masked, again]

/-- Bits with the padding cleared are known by the bits outside the padding. -/
theorem masked_eq_masked_iff {others : List Bool} (length : others.length = bits.length) :
    masked others padded = masked bits padded ↔
      ∀ i : Nat, padded[i]? = some false → others[i]? = bits[i]? := by
  induction padded generalizing bits others with
  | nil => simp
  | cons mark padded ih =>
    cases bits with
    | nil =>
      rw [List.length_eq_zero_iff.mp length]
      exact ⟨fun _ _ _ => rfl, fun _ => rfl⟩
    | cons bit bits =>
      cases others with
      | nil => cases length
      | cons other others =>
        have rest := ih (Nat.succ.inj length)
        constructor
        · intro same i unmarked
          obtain ⟨first, others_same⟩ := List.cons_eq_cons.mp same
          cases i with
          | zero =>
            cases unmarked
            simpa using first
          | succ i => exact rest.mp others_same i unmarked
        · intro agree
          refine List.cons_eq_cons.mpr ⟨?_, rest.mpr fun i => agree (i + 1)⟩
          cases mark with
          | false => simpa using agree 0 rfl
          | true => simp

end Masked

namespace BitReader

/-- A reader at the same bit offset as another one, with the same bits before it outside the
padding. -/
structure Agrees (s : BitReader) (padded : List Bool) (r : BitReader) : Prop where
  offset : s.bitOffset = r.bitOffset
  within : padded.length ≤ s.bitsRemaining
  bits : masked s.remaining padded = masked r.remaining padded

variable {r r' s : BitReader} {first second : List Bool}

/-- Readers that agree on two readings in a row agree on each of them. -/
theorem Agrees.split (agrees : s.Agrees (first ++ second) r) (passes : r.Passes first r') :
    s.Agrees first r ∧ (s.advance first.length).Agrees second r' := by
  obtain ⟨offset, within, bits⟩ := agrees
  obtain ⟨within', rfl⟩ := passes
  rw [List.length_append] at within
  have enough : first.length ≤ s.remaining.length := by simp; omega
  have enough' : first.length ≤ r.remaining.length := by simpa using within'
  -- Both masks are as long as the first reading, so the bits behind them begin at the same place.
  rw [masked_append enough, masked_append enough'] at bits
  have lengths : (masked s.remaining first).length = (masked r.remaining first).length := by
    rw [length_masked enough, length_masked enough']
  obtain ⟨front, back⟩ := List.append_inj bits lengths
  refine ⟨⟨offset, by omega, front⟩, by simp [offset], by simp; omega, ?_⟩
  rw [remaining_advance, remaining_advance, back]

/-- Bits outside the padding are the same bits. -/
theorem Agrees.take_eq {width : Nat} (agrees : s.Agrees (List.replicate width false) r) :
    width ≤ s.bitsRemaining ∧ s.remaining.take width = r.remaining.take width := by
  obtain ⟨-, within, bits⟩ := agrees
  rw [masked_replicate_false, masked_replicate_false] at bits
  exact ⟨by rwa [List.length_replicate] at within, bits⟩

end BitReader

section Decoding

variable {scope : Scope} {r r' s : BitReader} {value : Value}

theorem readSlice_of_agrees {kind : Layout.Kind} {length : Length} {raw : List UInt8}
    (read : readSlice kind length scope r = .ok (raw, r'))
    (agrees : s.Agrees (paddedInSlice kind length scope r) r) :
    readSlice kind length scope s =
      .ok (raw, s.advance (paddedInSlice kind length scope r).length) := by
  rw [paddedInSlice_eq read] at agrees ⊢
  obtain ⟨within, bits⟩ := agrees.take_eq
  obtain ⟨resolved, aligned, -, raw_bits, -⟩ := readSlice_eq_ok_iff.mp read
  rw [List.length_replicate]
  refine readSlice_eq_ok_iff.mpr ⟨resolved, ?_, within, ?_, rfl⟩
  · rw [agrees.offset, aligned]
  · rw [bits, raw_bits]

theorem decodeItems_of_agrees {item : BitReader → Except Failure (Value × BitReader)}
    {padded : BitReader → List Bool}
    (passes : ∀ {r r' value}, r.Valid → item r = .ok (value, r') → r.Passes (padded r) r')
    (each : ∀ {r r' s value}, r.Valid → s.Valid → item r = .ok (value, r') →
      s.Agrees (padded r) r → item s = .ok (value, s.advance (padded r).length))
    {count index : Nat} {items : List Value} (valid : r.Valid) (valid' : s.Valid)
    (read : decodeItems item count index r = .ok (items, r'))
    (agrees : s.Agrees (paddedInItems item padded count r) r) :
    decodeItems item count index s =
      .ok (items, s.advance (paddedInItems item padded count r).length) := by
  induction count generalizing index r s items with
  | zero =>
    cases read
    rw [paddedInItems_zero, List.length_nil, valid'.advance_zero]
    rfl
  | succ count ih =>
    obtain ⟨first, others, r₁, read_first, read_others, rfl⟩ :=
      decodeItems_succ_eq_ok_iff.mp read
    have passed := passes valid read_first
    rw [paddedInItems_succ read_first] at agrees ⊢
    obtain ⟨agrees_first, agrees_others⟩ := agrees.split passed
    have again_first := each valid valid' read_first agrees_first
    have again_others := ih (passed.valid valid) (valid'.advance agrees_first.within) read_others
      agrees_others
    rw [List.length_append, ← BitReader.advance_advance]
    exact decodeItems_succ_eq_ok_iff.mpr ⟨first, others, _, again_first, again_others, rfl⟩

theorem decodeSlots_of_agrees {slots : List Slot}
    (each : ∀ slot ∈ slots, ∀ layout, slot.layout? = some layout → ∀ {scope r r' s value},
      r.Valid → s.Valid → layout.decode scope r = .ok (value, r') →
      s.Agrees (layout.padded scope r) r →
      layout.decode scope s = .ok (value, s.advance (layout.padded scope r).length))
    {record final : Entries} (valid : r.Valid) (valid' : s.Valid)
    (read : decodeSlots slots record r = .ok (final, r'))
    (agrees : s.Agrees (paddedInSlots slots record r) r) :
    decodeSlots slots record s =
      .ok (final, s.advance (paddedInSlots slots record r).length) := by
  induction slots generalizing record r s with
  | nil =>
    cases read
    rw [paddedInSlots, List.length_nil, valid'.advance_zero, decodeSlots]
  | cons slot rest ih =>
    obtain ⟨inSlot, inRest⟩ := List.forall_mem_cons.mp each
    obtain ⟨layout, value, r₁, record₁, same, read_first, stored, read_rest⟩ :=
      decodeSlots_cons_eq_ok_iff.mp read
    have passed := Layout.passes_of_decode valid read_first
    rw [paddedInSlots_cons same read_first stored] at agrees ⊢
    obtain ⟨agrees_first, agrees_rest⟩ := agrees.split passed
    -- The same value is stored, so the other slots go on from the same record.
    have again_first := inSlot layout same valid valid' read_first agrees_first
    have again_rest := ih inRest (passed.valid valid) (valid'.advance agrees_first.within) read_rest
      agrees_rest
    rw [List.length_append, ← BitReader.advance_advance]
    exact decodeSlots_cons_eq_ok_iff.mpr
      ⟨layout, value, _, record₁, same, again_first, stored, again_rest⟩

theorem Layout.decode_bitField_of_agrees (valid : r.Valid) (valid' : s.Valid) {width : Integer}
    (read : (bitField width).decode scope r = .ok (value, r'))
    (agrees : s.Agrees ((bitField width).padded scope r) r) :
    (bitField width).decode scope s =
      .ok (value, s.advance ((bitField width).padded scope r).length) := by
  obtain ⟨positive, enough, rfl, -⟩ := (decode_bitField_eq_ok_iff valid).mp read
  rw [padded_bitField valid positive enough] at agrees ⊢
  obtain ⟨within, bits⟩ := agrees.take_eq
  rw [List.length_replicate, ← bits]
  exact (decode_bitField_eq_ok_iff valid').mpr ⟨positive, within, rfl, rfl⟩

/-- From a place whose bits agree outside the padding, the same value is read. -/
theorem Layout.decode_of_agrees {layout : Layout} (valid : r.Valid) (valid' : s.Valid)
    (read : layout.decode scope r = .ok (value, r'))
    (agrees : s.Agrees (layout.padded scope r) r) :
    layout.decode scope s = .ok (value, s.advance (layout.padded scope r).length) := by
  -- Both readers move along; what each layout needs is that they agree on the bits it passes.
  induction layout using Layout.induction generalizing scope r r' s value with
  | abstract => cases read
  | sequence slots ih =>
    obtain ⟨record, read_slots, rfl⟩ := decode_sequence_eq_ok_iff.mp read
    have again := decodeSlots_of_agrees ih valid valid' read_slots agrees
    exact decode_sequence_eq_ok_iff.mpr ⟨record, again, rfl⟩
  | array length element ih =>
    obtain ⟨count, items, resolved, read_items, rfl⟩ := decode_array_eq_ok_iff.mp read
    rw [padded_array resolved] at agrees ⊢
    have again := decodeItems_of_agrees passes_of_decode ih valid valid' read_items agrees
    exact decode_array_eq_ok_iff.mpr ⟨count, items, resolved, again, rfl⟩
  | branch discriminant cases otherwise ih =>
    obtain ⟨key, layout, found, chosen, read⟩ := decode_branch_eq_ok_iff.mp read
    rw [padded_branch found chosen] at agrees ⊢
    have again := ih layout (alternative_of_select chosen) valid valid' read agrees
    exact decode_branch_eq_ok_iff.mpr ⟨key, layout, found, chosen, again⟩
  | bitField width => exact decode_bitField_of_agrees valid valid' read agrees
  | wideField width =>
    rw [padded_wideField] at agrees ⊢
    rw [decode_wideField_eq_ok_iff] at read ⊢
    exact decode_bitField_of_agrees valid valid' read agrees
  | byteSlice length =>
    obtain ⟨raw, read_raw, rfl⟩ := decode_byteSlice_eq_ok_iff.mp read
    exact decode_byteSlice_eq_ok_iff.mpr ⟨raw, readSlice_of_agrees read_raw agrees, rfl⟩
  | text length encoding =>
    obtain ⟨raw, t, read_raw, spelled, rfl⟩ := decode_text_eq_ok_iff.mp read
    exact decode_text_eq_ok_iff.mpr ⟨raw, t, readSlice_of_agrees read_raw agrees, spelled, rfl⟩
  | padding width =>
    obtain ⟨nonnegative, enough, rfl, -⟩ := decode_padding_eq_ok_iff.mp read
    rw [padded_padding nonnegative enough] at agrees ⊢
    have within := agrees.within
    rw [List.length_replicate] at within ⊢
    exact decode_padding_eq_ok_iff.mpr ⟨nonnegative, within, rfl, rfl⟩

end Decoding

end BitLayout
