import BitLayout.Decoder
import BitLayout.Proofs.Bits.Reader
import BitLayout.Proofs.Layout.Tree
import BitLayout.Proofs.Outcome

/-!
# Successful decoding, layout by layout

What a layout has to find in order to read a value, and what is left after it. Everything that is
said about decoded values rests on these statements and not on the decoder itself.

## Main results

* `BitReader.readNat_eq_ok_iff`, `BitReader.skip_eq_ok_iff`, `readSlice_eq_ok_iff`: the leaves
* `Layout.decode_array_eq_ok_iff`, `Layout.decode_branch_eq_ok_iff`, and so on: one for each layout
* `decodeSlots_cons_eq_ok_iff`, `decodeItems_succ_eq_ok_iff`: slots and items one after another
-/

namespace BitLayout

-- The equations of the decoder are made once here, not by every proof that waits for them.
attribute [local simp] Layout.decode decodeSlots decodeCase? decodeItems

section Leaves

variable {r r' : BitReader}

theorem BitReader.readNat_eq_ok_iff (valid : r.Valid) {width : Integer} {n : Nat} :
    r.readNat width = .ok (n, r') ↔
      1 ≤ width.toInt ∧ width.toNat ≤ r.bitsRemaining ∧
        n = natOfBits (r.remaining.take width.toNat) ∧ r' = r.advance width.toNat := by
  rw [BitReader.readNat_eq valid]
  split_ifs with narrow short
  · simp only [false_iff]
    omega
  · simp only [false_iff]
    omega
  · rw [Except.ok.injEq, Prod.mk.injEq]
    constructor
    · rintro ⟨rfl, rfl⟩
      exact ⟨by omega, by omega, rfl, rfl⟩
    · rintro ⟨-, -, rfl, rfl⟩
      exact ⟨rfl, rfl⟩

theorem BitReader.skip_eq_ok_iff {count : Integer} :
    r.skip count = .ok r' ↔
      0 ≤ count.toInt ∧ count.toNat ≤ r.bitsRemaining ∧ r' = r.advance count.toNat := by
  rw [BitReader.skip_eq]
  split_ifs with negative short
  · simp only [false_iff]
    omega
  · simp only [false_iff]
    omega
  · rw [Except.ok.injEq]
    constructor
    · rintro rfl
      exact ⟨by omega, by omega, rfl⟩
    · rintro ⟨-, -, rfl⟩
      rfl

theorem ofCursor_eq_ok_iff {α : Type} {kind : Layout.Kind} {step : Except CursorError α} {a : α} :
    ofCursor kind step = .ok a ↔ step = .ok a := by
  cases step with
  | ok b => simp [ofCursor]
  | error error => cases error <;> simp [ofCursor]

/-- Whole bytes are read at a byte boundary if as many are left. -/
theorem BitReader.readBytes_eq_ok_iff {count : Integer} {raw : List UInt8} :
    r.readBytes count = .ok (raw, r') ↔
      r.bitOffset = 0 ∧ count.toInt = raw.length ∧ 8 * raw.length ≤ r.bitsRemaining ∧
        bitsOfBytes raw = r.remaining.take (8 * raw.length) ∧ r' = r.advance (8 * raw.length) := by
  have nat : count.toNat = count.toInt.toNat := rfl
  rw [BitReader.readBytes_eq]
  by_cases aligned : r.bitOffset = 0
  · have bits := BitReader.bitsOfBytes_take_drop aligned count.toNat
    -- The bytes are known by their bits, which are as many as asked for exactly if they are there.
    split_ifs with inside negative short
    · exact absurd aligned inside
    · simp only [false_iff]
      omega
    · simp only [false_iff]
      omega
    · have length := congrArg List.length bits
      rw [length_bitsOfBytes, List.length_take (l := r.remaining), BitReader.length_remaining] at length
      rw [Except.ok.injEq, Prod.mk.injEq]
      constructor
      · rintro ⟨rfl, rfl⟩
        have whole : (List.take count.toNat (r.data.toList.drop r.byteIndex)).length = count.toNat := by
          omega
        rw [whole]
        exact ⟨aligned, by omega, by omega, bits, rfl⟩
      · rintro ⟨-, same, -, raw_bits, rfl⟩
        have whole : count.toNat = raw.length := by omega
        rw [← whole, ← bits] at raw_bits
        exact ⟨(bitsOfBytes_injective raw_bits).symm, by rw [whole]⟩
  · rw [if_pos aligned]
    simp [aligned]

/-- The bytes of a slice are the next bits at a byte boundary, as many as its length says. -/
theorem readSlice_eq_ok_iff {kind : Layout.Kind} {length : Length} {scope : Scope}
    {raw : List UInt8} :
    readSlice kind length scope r = .ok (raw, r') ↔
      (∃ count, length.resolve scope = .ok count ∧ count.toInt = raw.length) ∧
        r.bitOffset = 0 ∧ 8 * raw.length ≤ r.bitsRemaining ∧
        bitsOfBytes raw = r.remaining.take (8 * raw.length) ∧ r' = r.advance (8 * raw.length) := by
  rw [readSlice]
  by_cases aligned : r.bitOffset = 0
  · rw [if_neg (by simpa using aligned)]
    simp only [bind_eq_ok_iff, mapError_eq_ok_iff, ofCursor_eq_ok_iff,
      BitReader.readBytes_eq_ok_iff]
    constructor
    · rintro ⟨count, resolved, rest⟩
      exact ⟨⟨count, resolved, rest.2.1⟩, aligned, rest.2.2⟩
    · rintro ⟨⟨count, resolved, same⟩, -, rest⟩
      exact ⟨count, resolved, aligned, same, rest⟩
  · rw [if_pos aligned]
    simp [aligned]

theorem readText_eq_ok_iff {encoding : Text} {raw : List UInt8} {t : Text} :
    readText encoding raw = .ok t ↔ EncodingName.decode encoding raw = .ok t := by
  rw [readText]
  split <;> simp_all

end Leaves

section Branches

variable {cases : List (Integer × Layout)} {key : Integer}

/-- Reading by the first matching case, or else by what is left, is reading by the choice. -/
theorem decodeCase?_eq (scope : Scope) (r : BitReader) :
    decodeCase? cases key scope r =
      (Layout.select cases none key).map fun layout => layout.decode scope r := by
  induction cases with
  | nil => rfl
  | cons entry rest ih =>
    obtain ⟨k, layout⟩ := entry
    rw [decodeCase?, Layout.select]
    split
    · rfl
    · exact ih

end Branches

namespace Layout

variable {scope : Scope} {r r' : BitReader} {value : Value}

theorem decode_sequence_eq_ok_iff {slots : List Slot} :
    (sequence slots).decode scope r = .ok (value, r') ↔
      ∃ record, decodeSlots slots [] r = .ok (record, r') ∧ value = .dict record := by
  rw [decode]
  simp only [bind_eq_ok_iff, Prod.exists, Except.ok.injEq, Prod.mk.injEq]
  constructor
  · rintro ⟨record, r, read, rfl, rfl⟩
    exact ⟨record, read, rfl⟩
  · rintro ⟨record, read, rfl⟩
    exact ⟨record, r', read, rfl, rfl⟩

theorem decode_array_eq_ok_iff {length : Length} {element : Layout} :
    (array length element).decode scope r = .ok (value, r') ↔
      ∃ count items, length.resolve scope = .ok count ∧
        decodeItems (fun r => element.decode none r) count.toNat 0 r = .ok (items, r') ∧
        value = .list items := by
  rw [decode]
  simp only [bind_eq_ok_iff, mapError_eq_ok_iff, Prod.exists, Except.ok.injEq, Prod.mk.injEq]
  constructor
  · rintro ⟨count, resolved, items, r, read, rfl, rfl⟩
    exact ⟨count, items, resolved, read, rfl⟩
  · rintro ⟨count, items, resolved, read, rfl⟩
    exact ⟨count, resolved, items, r', read, rfl, rfl⟩

/-- A branch in a record finds its number and reads what it chooses. -/
theorem decode_branch_eq {discriminant : Text} {cases : List (Integer × Layout)}
    {otherwise : Option Layout} {record : Entries} :
    (branch discriminant cases otherwise).decode (some record) r =
      (resolveField (some record) discriminant).mapError .here >>= fun key =>
        (select cases otherwise key).elim (.error (.here (.noMatchingCase discriminant key)))
          fun layout => layout.decode (some record) r := by
  rw [decode]
  congr 1
  funext key
  -- The default counts only where no case has the key.
  have choice : select cases otherwise key = (select cases none key).or otherwise := select_eq_or
  rw [decodeCase?_eq, choice]
  cases select cases none key with
  | some layout => rfl
  | none => cases otherwise <;> rfl

/-- A branch reads what the alternative chosen by its discriminant reads. -/
theorem decode_branch_eq_ok_iff {discriminant : Text} {cases : List (Integer × Layout)}
    {otherwise : Option Layout} :
    (branch discriminant cases otherwise).decode scope r = .ok (value, r') ↔
      ∃ key layout, resolveField scope discriminant = .ok key ∧
        select cases otherwise key = some layout ∧ layout.decode scope r = .ok (value, r') := by
  cases scope with
  | none => simp [decode, resolveField]
  | some record =>
    rw [decode_branch_eq]
    simp only [bind_eq_ok_iff, mapError_eq_ok_iff]
    refine exists_congr fun key => ?_
    cases select cases otherwise key <;> simp

theorem decode_bitField_eq_ok_iff (valid : r.Valid) {width : Integer} :
    (bitField width).decode scope r = .ok (value, r') ↔
      1 ≤ width.toInt ∧ width.toNat ≤ r.bitsRemaining ∧
        value = .int (natOfBits (r.remaining.take width.toNat)) ∧ r' = r.advance width.toNat := by
  rw [decode]
  simp only [bind_eq_ok_iff, ofCursor_eq_ok_iff, Prod.exists, Except.ok.injEq, Prod.mk.injEq,
    BitReader.readNat_eq_ok_iff valid]
  constructor
  · rintro ⟨n, r, ⟨positive, enough, rfl, rfl⟩, rfl, rfl⟩
    exact ⟨positive, enough, rfl, rfl⟩
  · rintro ⟨positive, enough, rfl, rfl⟩
    exact ⟨_, _, ⟨positive, enough, rfl, rfl⟩, rfl, rfl⟩

theorem decode_wideField_eq_ok_iff {width : Integer} :
    (wideField width).decode scope r = .ok (value, r') ↔
      (bitField width).decode scope r = .ok (value, r') := by
  rw [decode, decode]
  simp only [bind_eq_ok_iff, ofCursor_eq_ok_iff]

theorem decode_byteSlice_eq_ok_iff {length : Length} :
    (byteSlice length).decode scope r = .ok (value, r') ↔
      ∃ raw, readSlice .byteSlice length scope r = .ok (raw, r') ∧ value = .ofBytes raw := by
  rw [decode]
  simp only [bind_eq_ok_iff, Prod.exists, Except.ok.injEq, Prod.mk.injEq]
  constructor
  · rintro ⟨raw, r, read, rfl, rfl⟩
    exact ⟨raw, read, rfl⟩
  · rintro ⟨raw, read, rfl⟩
    exact ⟨raw, r', read, rfl, rfl⟩

theorem decode_text_eq_ok_iff {length : Length} {encoding : Text} :
    (text length encoding).decode scope r = .ok (value, r') ↔
      ∃ raw t, readSlice .text length scope r = .ok (raw, r') ∧
        EncodingName.decode encoding raw = .ok t ∧ value = .text t := by
  rw [decode]
  simp only [bind_eq_ok_iff, Prod.exists, Except.ok.injEq, Prod.mk.injEq, readText_eq_ok_iff]
  constructor
  · rintro ⟨raw, r, read, t, spelled, rfl, rfl⟩
    exact ⟨raw, t, read, spelled, rfl⟩
  · rintro ⟨raw, t, read, spelled, rfl⟩
    exact ⟨raw, r', read, t, spelled, rfl, rfl⟩

theorem decode_padding_eq_ok_iff {width : Integer} :
    (padding width).decode scope r = .ok (value, r') ↔
      0 ≤ width.toInt ∧ width.toNat ≤ r.bitsRemaining ∧ value = .null ∧
        r' = r.advance width.toNat := by
  rw [decode]
  simp only [bind_eq_ok_iff, ofCursor_eq_ok_iff, Except.ok.injEq, Prod.mk.injEq,
    BitReader.skip_eq_ok_iff]
  constructor
  · rintro ⟨r, ⟨nonnegative, enough, rfl⟩, rfl, rfl⟩
    exact ⟨nonnegative, enough, rfl, rfl⟩
  · rintro ⟨nonnegative, enough, rfl, rfl⟩
    exact ⟨_, ⟨nonnegative, enough, rfl⟩, rfl, rfl⟩

end Layout

/-- The record after a slot has read a value. An embedded layout has to read a record. -/
def Slot.store (record : Entries) (value : Value) : Slot → Option Entries
  | .named name _ => some (record.insert (.text name) value)
  | .embedded _ =>
    match value with
    | .dict fields => some (record.merge fields)
    | _ => none
  | .padding .. => some record
  | .foreign .. => none

/-- Slots are read if the first one reads a value and the others go on from there. -/
theorem decodeSlots_cons_eq_ok_iff {slot : Slot} {rest : List Slot} {record final : Entries}
    {r r' : BitReader} :
    decodeSlots (slot :: rest) record r = .ok (final, r') ↔
      ∃ layout value r₁ record₁, slot.layout? = some layout ∧
        layout.decode (some record) r = .ok (value, r₁) ∧
        slot.store record value = some record₁ ∧
        decodeSlots rest record₁ r₁ = .ok (final, r') := by
  cases slot with
  | named name layout | padding layout label =>
    rw [decodeSlots]
    simp [bind_eq_ok_iff, mapError_eq_ok_iff, Slot.layout?, Slot.store]
  | embedded layout =>
    rw [decodeSlots]
    simp only [bind_eq_ok_iff, Prod.exists, Slot.layout?, Option.some.injEq]
    -- Anything but a record stops the reading on one side and has nowhere to go on the other one.
    constructor
    · rintro ⟨value, r₁, read, others⟩
      cases value with
      | dict fields => exact ⟨layout, .dict fields, r₁, _, rfl, read, rfl, others⟩
      | _ => cases others
    · rintro ⟨_, value, r₁, record₁, rfl, read, stored, others⟩
      cases value with
      | dict fields =>
        cases stored
        exact ⟨.dict fields, r₁, read, others⟩
      | _ => cases stored
  | foreign typeName written =>
    rw [decodeSlots]
    simp [Slot.layout?]

section Items

variable {r r' : BitReader} {item : BitReader → Except Failure (Value × BitReader)}
  {count index : Nat} {items : List Value}

theorem decodeItems_succ_eq_ok_iff :
    decodeItems item (count + 1) index r = .ok (items, r') ↔
      ∃ first others r₁, item r = .ok (first, r₁) ∧
        decodeItems item count (index + 1) r₁ = .ok (others, r') ∧ items = first :: others := by
  rw [decodeItems]
  simp only [bind_eq_ok_iff, mapError_eq_ok_iff, Prod.exists, Except.ok.injEq, Prod.mk.injEq]
  constructor
  · rintro ⟨first, r₁, read, others, r₂, rest, rfl, rfl⟩
    exact ⟨first, others, r₁, read, rest, rfl⟩
  · rintro ⟨first, others, r₁, read, rest, rfl⟩
    exact ⟨first, r₁, read, others, r', rest, rfl, rfl⟩

/-- Every item of a list that is read is read somewhere. -/
theorem forall_of_decodeItems {P : Value → Prop}
    (each : ∀ {r r' value}, item r = .ok (value, r') → P value)
    (read : decodeItems item count index r = .ok (items, r')) : ∀ value ∈ items, P value := by
  induction count generalizing index r items with
  | zero =>
    cases read
    exact fun _ member => nomatch member
  | succ count ih =>
    obtain ⟨first, others, r₁, read_first, read_others, rfl⟩ := decodeItems_succ_eq_ok_iff.mp read
    exact List.forall_mem_cons.mpr ⟨each read_first, ih read_others⟩

theorem length_of_decodeItems (read : decodeItems item count index r = .ok (items, r')) :
    items.length = count := by
  induction count generalizing index r items with
  | zero =>
    cases read
    rfl
  | succ count ih =>
    obtain ⟨first, others, r₁, -, rest, rfl⟩ := decodeItems_succ_eq_ok_iff.mp read
    rw [List.length_cons, ih rest]

end Items

end BitLayout
