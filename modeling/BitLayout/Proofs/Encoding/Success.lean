import BitLayout.Encoder
import BitLayout.Proofs.Bits.Writer
import BitLayout.Proofs.Layout.Tree
import BitLayout.Proofs.Outcome

/-!
# Successful encoding, layout by layout

What a layout has to be given in order to write it. A number is written if its width is at least one
and there is room for it, and bytes are written at a byte boundary. Everything that is said about
encoded bytes rests on these statements and not on the encoder itself.

## Main results

* `BitWriter.Holds.of_writeInt`, `BitWriter.Holds.of_writeBytes`, `writeSlice_eq_ok_iff`: the leaves
* `Layout.encode_array_eq_ok_iff`, `Layout.encode_branch_eq_ok_iff`, and so on: one for each layout
* `encodeSlots_cons_eq_ok_iff`, `encodeSlots_append_eq_ok_iff`, and the same for items: slots and
  items one after another
* `encodeSlots_cut`: slots around one of them
-/

namespace BitLayout

-- The equations of the encoder are made once here, not by every proof that waits for them.
attribute [local simp] Layout.encode encodeSlots encodeCase? encodeItems

section Leaves

variable {memory : Memory} {w w' : BitWriter} {written : List Bool}

/-- A number that is written has a width of at least one and appends its low bits. -/
theorem BitWriter.Holds.of_writeInt (holds : w.Holds written) {value : Int} {width : Integer}
    (wrote : w.writeInt value width = .ok w') :
    1 ≤ width.toInt ∧ w'.Holds (written ++ bitsOfNat width.toNat (lowBits width.toNat value)) := by
  by_cases positive : 1 ≤ width.toInt
  · obtain ⟨w'', wrote', holds'⟩ := holds.writeInt value positive
    rw [wrote'] at wrote
    exact ⟨positive, Except.ok.inj wrote ▸ holds'⟩
  · rw [BitWriter.writeInt, if_pos (by omega)] at wrote
    cases wrote

/-- Bytes that are written start at a byte boundary and append their bits. -/
theorem BitWriter.Holds.of_writeBytes (holds : w.Holds written) {data : List UInt8}
    (wrote : w.writeBytes data = .ok w') :
    w.bitOffset = 0 ∧ w'.Holds (written ++ bitsOfBytes data) := by
  by_cases aligned : w.bitOffset = 0
  · obtain ⟨w'', wrote', holds'⟩ := holds.writeBytes aligned data
    rw [wrote'] at wrote
    exact ⟨aligned, Except.ok.inj wrote ▸ holds'⟩
  · rw [BitWriter.writeBytes, if_neg aligned] at wrote
    cases wrote

theorem writeInteger_eq_ok_iff {kind : Layout.Kind} {width : Integer} {value : Value} :
    writeInteger memory kind width value w = .ok w' ↔
      ∃ n, value.integer? = some n ∧ w.writeIntWithin memory n.toInt width = .ok w' := by
  cases value <;> simp [writeInteger, Value.integer?, mapError_eq_ok_iff]

/-- The length of a slice has to be found, but is not compared with what is written. -/
theorem writeSlice_eq_ok_iff {kind : Layout.Kind} {length : Length} {raw : List UInt8}
    {scope : Scope} :
    writeSlice kind length raw scope w = .ok w' ↔
      (∃ count, length.resolve scope = .ok count) ∧ w.writeBytes raw = .ok w' := by
  rw [writeSlice]
  by_cases aligned : w.bitOffset = 0
  · rw [if_neg (by simpa using aligned)]
    simp only [bind_eq_ok_iff, mapError_eq_ok_iff, exists_and_right]
  · rw [if_pos aligned, BitWriter.writeBytes, if_neg aligned]
    simp

theorem writeText_eq_ok_iff {encoding t : Text} {raw : List UInt8} :
    writeText encoding t = .ok raw ↔ EncodingName.encode encoding t = .ok raw := by
  rw [writeText]
  split <;> simp_all

end Leaves

theorem encodeCase?_eq {memory : Memory} {cases : List (Integer × Layout)} {key : Integer}
    (value : Value) (scope : Scope) (w : BitWriter) :
    encodeCase? memory cases key value scope w =
      (Layout.select cases none key).map fun layout => layout.encode memory value scope w := by
  induction cases with
  | nil => rfl
  | cons entry rest ih =>
    obtain ⟨k, layout⟩ := entry
    rw [encodeCase?, Layout.select]
    split
    · rfl
    · exact ih

namespace Layout

variable {memory : Memory} {scope : Scope} {value : Value} {w w' : BitWriter}

theorem encode_sequence_eq_ok_iff {slots : List Slot} :
    (sequence slots).encode memory value scope w = .ok w' ↔
      ∃ record, value = .dict record ∧ encodeSlots memory slots record w = .ok w' := by
  cases value <;> simp [encode]

theorem encode_array_eq_ok_iff {length : Length} {element : Layout} :
    (array length element).encode memory value scope w = .ok w' ↔
      ∃ items count, value.items? = some items ∧ length.resolve scope = .ok count ∧
        count.toInt = items.length ∧
        encodeItems (fun item w => element.encode memory item none w) 0 items w = .ok w' := by
  rw [encode]
  cases value.items? with
  | none => simp
  | some items =>
    simp only [bind_eq_ok_iff, mapError_eq_ok_iff, Option.some.injEq]
    constructor
    · rintro ⟨count, resolved, wrote⟩
      split_ifs at wrote with same
      exact ⟨items, count, rfl, resolved, not_not.mp same, wrote⟩
    · rintro ⟨_, count, rfl, resolved, same, wrote⟩
      exact ⟨count, resolved, by rwa [if_neg (not_not.mpr same)]⟩

/-- A branch in a record finds its number and writes by what it chooses. -/
theorem encode_branch_eq {discriminant : Text} {cases : List (Integer × Layout)}
    {otherwise : Option Layout} {record : Entries} :
    (branch discriminant cases otherwise).encode memory value (some record) w =
      (resolveField (some record) discriminant).mapError .here >>= fun key =>
        (select cases otherwise key).elim (.error (.here (.noMatchingCase discriminant key)))
          fun layout => layout.encode memory value (some record) w := by
  rw [encode]
  congr 1
  funext key
  -- The default counts only where no case has the key.
  have choice : select cases otherwise key = (select cases none key).or otherwise := select_eq_or
  rw [encodeCase?_eq, choice]
  cases select cases none key with
  | some layout => rfl
  | none => cases otherwise <;> rfl

/-- A branch writes what the alternative chosen by its discriminant writes. -/
theorem encode_branch_eq_ok_iff {discriminant : Text} {cases : List (Integer × Layout)}
    {otherwise : Option Layout} :
    (branch discriminant cases otherwise).encode memory value scope w = .ok w' ↔
      ∃ key layout, resolveField scope discriminant = .ok key ∧
        select cases otherwise key = some layout ∧ layout.encode memory value scope w = .ok w' := by
  cases scope with
  | none => simp [encode, resolveField]
  | some record =>
    rw [encode_branch_eq]
    simp only [bind_eq_ok_iff, mapError_eq_ok_iff]
    refine exists_congr fun key => ?_
    cases select cases otherwise key <;> simp

theorem encode_branch_of_select {discriminant : Text} {cases : List (Integer × Layout)}
    {otherwise : Option Layout} {key : Integer} {layout : Layout}
    (found : resolveField scope discriminant = .ok key)
    (chosen : select cases otherwise key = some layout) :
    (branch discriminant cases otherwise).encode memory value scope w = .ok w' ↔
      layout.encode memory value scope w = .ok w' := by
  rw [encode_branch_eq_ok_iff]
  constructor
  -- A scope has one number for the discriminant and a number has one alternative.
  · rintro ⟨_, _, found', chosen', wrote⟩
    rw [found] at found'
    cases found'
    rw [chosen] at chosen'
    cases chosen'
    exact wrote
  · exact fun wrote => ⟨key, layout, found, chosen, wrote⟩

theorem encode_bitField_eq_ok_iff {width : Integer} :
    (bitField width).encode memory value scope w = .ok w' ↔
      ∃ n, value.integer? = some n ∧ w.writeIntWithin memory n.toInt width = .ok w' := by
  rw [encode, writeInteger_eq_ok_iff]

theorem encode_wideField_eq_ok_iff {width : Integer} :
    (wideField width).encode memory value scope w = .ok w' ↔
      (bitField width).encode memory value scope w = .ok w' := by
  rw [encode_bitField_eq_ok_iff, encode, writeInteger_eq_ok_iff]

/-- Padding does not look at the value. -/
theorem encode_padding_eq_ok_iff {width : Integer} :
    (padding width).encode memory value scope w = .ok w' ↔
      w.writeIntWithin memory 0 width = .ok w' := by
  rw [encode, writePadding, BitWriter.writeZeros, mapError_eq_ok_iff]

theorem encode_byteSlice_eq_ok_iff {length : Length} :
    (byteSlice length).encode memory value scope w = .ok w' ↔
      ∃ holder raw, value = .bytes holder raw ∧
        writeSlice .byteSlice length raw scope w = .ok w' := by
  cases value <;> simp [encode]

theorem encode_text_eq_ok_iff {length : Length} {encoding : Text} :
    (text length encoding).encode memory value scope w = .ok w' ↔
      ∃ t raw, value = .text t ∧ EncodingName.encode encoding t = .ok raw ∧
        writeSlice .text length raw scope w = .ok w' := by
  cases value <;> simp [encode, bind_eq_ok_iff, writeText_eq_ok_iff]

end Layout

/-- The value that a slot takes from a record. An embedded layout gets the whole record. -/
def Slot.load (record : Entries) : Slot → Value
  | .named name _ => (record.field? name).getD .null
  | .embedded _ => .dict record
  | .padding .. => .null
  | .foreign .. => .null

/-- Slots are written if the first one writes its value and the others go on from there. -/
theorem encodeSlots_cons_eq_ok_iff {memory : Memory} {slot : Slot} {rest : List Slot}
    {record : Entries} {w w' : BitWriter} (wellFormed : slot.WellFormed) :
    encodeSlots memory (slot :: rest) record w = .ok w' ↔
      ∃ layout w₁, slot.layout? = some layout ∧
        layout.encode memory (slot.load record) (some record) w = .ok w₁ ∧
        encodeSlots memory rest record w₁ = .ok w' := by
  cases slot with
  | named name layout | embedded layout =>
    rw [encodeSlots]
    simp [bind_eq_ok_iff, mapError_eq_ok_iff, Slot.layout?, Slot.load]
  | padding layout label =>
    -- The encoder asks padding for its width, which other layouts in this place need not have.
    obtain ⟨isPadding, -⟩ := wellFormed
    cases layout with
    | padding width =>
      rw [encodeSlots]
      simp [bind_eq_ok_iff, Slot.layout?, Layout.width?, Layout.encode]
    | _ => cases isPadding
  | foreign => exact wellFormed.elim

/-- Slots write the same from another record if each of them does. -/
theorem encodeSlots_of_forall {memory : Memory} {slots : List Slot} (wellFormed : WellFormedSlots slots)
    {record record' : Entries}
    (each : ∀ slot ∈ slots, ∀ layout, slot.layout? = some layout → ∀ {w w'},
      layout.encode memory (slot.load record) (some record) w = .ok w' →
      layout.encode memory (slot.load record') (some record') w = .ok w')
    {w w' : BitWriter} (wrote : encodeSlots memory slots record w = .ok w') :
    encodeSlots memory slots record' w = .ok w' := by
  induction slots generalizing w with
  | nil => exact wrote
  | cons slot rest ih =>
    obtain ⟨inSlot, inRest⟩ := List.forall_mem_cons.mp each
    obtain ⟨layout, w₁, same, wrote_first, wrote_rest⟩ :=
      (encodeSlots_cons_eq_ok_iff wellFormed.1).mp wrote
    apply (encodeSlots_cons_eq_ok_iff wellFormed.1).mpr
    exact ⟨layout, w₁, same, inSlot layout same wrote_first, ih wellFormed.2 inRest wrote_rest⟩

theorem encodeItems_cons_eq_ok_iff {item : Value → BitWriter → Except Failure BitWriter}
    {index : Nat} {first : Value} {others : List Value} {w w' : BitWriter} :
    encodeItems item index (first :: others) w = .ok w' ↔
      ∃ w₁, item first w = .ok w₁ ∧ encodeItems item (index + 1) others w₁ = .ok w' := by
  rw [encodeItems]
  simp only [bind_eq_ok_iff, mapError_eq_ok_iff]

/-- Every item of a list that is written is written somewhere. -/
theorem forall_of_encodeItems {item : Value → BitWriter → Except Failure BitWriter} {index : Nat}
    {items : List Value} {w w' : BitWriter} (wrote : encodeItems item index items w = .ok w') :
    ∀ value ∈ items, ∃ w₁ w₂, item value w₁ = .ok w₂ := by
  induction items generalizing index w with
  | nil => exact fun _ member => nomatch member
  | cons first rest ih =>
    obtain ⟨w₁, wrote_first, wrote_rest⟩ := encodeItems_cons_eq_ok_iff.mp wrote
    exact List.forall_mem_cons.mpr ⟨⟨w, w₁, wrote_first⟩, ih wrote_rest⟩

/-- Slots are written if those in front are and the others go on from there. -/
theorem encodeSlots_append_eq_ok_iff {memory : Memory} {front back : List Slot} {record : Entries}
    {w w' : BitWriter} (wellFormed : WellFormedSlots front) :
    encodeSlots memory (front ++ back) record w = .ok w' ↔
      ∃ w₁, encodeSlots memory front record w = .ok w₁ ∧
        encodeSlots memory back record w₁ = .ok w' := by
  induction front generalizing w with
  | nil => simp [encodeSlots]
  | cons slot rest ih =>
    rw [List.cons_append, encodeSlots_cons_eq_ok_iff wellFormed.1]
    simp only [encodeSlots_cons_eq_ok_iff wellFormed.1, ih wellFormed.2]
    constructor
    · rintro ⟨layout, w₂, same, first, w₁, others, last⟩
      exact ⟨w₁, ⟨layout, w₂, same, first, others⟩, last⟩
    · rintro ⟨w₁, ⟨layout, w₂, same, first, others⟩, last⟩
      exact ⟨layout, w₂, same, first, w₁, others, last⟩

theorem encodeItems_append_eq_ok_iff {item : Value → BitWriter → Except Failure BitWriter}
    {index : Nat} {front back : List Value} {w w' : BitWriter} :
    encodeItems item index (front ++ back) w = .ok w' ↔
      ∃ w₁, encodeItems item index front w = .ok w₁ ∧
        encodeItems item (index + front.length) back w₁ = .ok w' := by
  induction front generalizing index w with
  | nil => simp [encodeItems]
  | cons first rest ih =>
    rw [List.cons_append, encodeItems_cons_eq_ok_iff]
    simp only [encodeItems_cons_eq_ok_iff, ih, List.length_cons, Nat.add_right_comm, Nat.add_assoc]
    constructor
    · rintro ⟨w₂, wrote, w₁, others, last⟩
      exact ⟨w₁, ⟨w₂, wrote, others⟩, last⟩
    · rintro ⟨w₁, ⟨w₂, wrote, others⟩, last⟩
      exact ⟨w₂, wrote, w₁, others, last⟩

/-- Slots are written if those before one of them are, then this one, and then the others. -/
theorem encodeSlots_cut {memory : Memory} {slots : List Slot} (wellFormed : WellFormedSlots slots)
    {record : Entries} {index : Nat} {slot : Slot} {layout : Layout}
    (there : slots[index]? = some slot) (same : slot.layout? = some layout) {w w' : BitWriter} :
    encodeSlots memory slots record w = .ok w' ↔
      ∃ w₁ w₂, encodeSlots memory (slots.take index) record w = .ok w₁ ∧
        layout.encode memory (slot.load record) (some record) w₁ = .ok w₂ ∧
        encodeSlots memory (slots.drop (index + 1)) record w₂ = .ok w' := by
  obtain ⟨wellFormed_earlier, wellFormed_slot, -⟩ := wellFormed.cut there
  have parts : encodeSlots memory slots record w = .ok w' ↔
      encodeSlots memory (slots.take index ++ slot :: slots.drop (index + 1)) record w = .ok w' := by
    rw [← eq_take_append_of_getElem? there]
  rw [parts, encodeSlots_append_eq_ok_iff wellFormed_earlier]
  simp only [encodeSlots_cons_eq_ok_iff wellFormed_slot, same, Option.some.injEq]
  constructor
  · rintro ⟨w₁, earlier, _, w₂, rfl, here, later⟩
    exact ⟨w₁, w₂, earlier, here, later⟩
  · rintro ⟨w₁, w₂, earlier, here, later⟩
    exact ⟨w₁, earlier, layout, w₂, rfl, here, later⟩

end BitLayout
