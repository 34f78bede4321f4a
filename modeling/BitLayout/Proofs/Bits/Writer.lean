import BitLayout.Bits.Writer
import BitLayout.Proofs.Bits.BitString
import BitLayout.Proofs.Outcome
import BitLayout.Raised
import Mathlib.Tactic.SplitIfs

/-!
# A writer holds a bit string

A writer is a bit string filled up with zeros to whole bytes. Every request that is not refused
appends its own bits, whatever the bit offset, and a refused request is one for a width below one or
for whole bytes inside a byte. Nothing else about a writer matters to what it writes next.

## Main definitions

* `BitWriter.Holds`: the writer stands for a bit string
* `WriteCall`, `BitWriter.run`: requests to a writer, one after another
* `WriteCall.bits`, `WriteCall.refusal?`, `WriteCall.appendTo`: the same for a bit string

## Main results

* `BitWriter.Holds.writeInt`, `BitWriter.Holds.writeBytes`: what one request appends
* `BitWriter.run_refines_bitString`: every run of requests appends bits
-/

namespace BitLayout

namespace Memory

variable {memory : Memory}

theorem hasRoom_of_le {bits fewer : Nat} (room : memory.hasRoom bits = true)
    (less : fewer ≤ bits) : memory.hasRoom fewer = true := by
  cases memory with
  | mk room? =>
    cases room? with
    | none => rfl
    | some limit =>
      simp only [hasRoom, Option.all_some, decide_eq_true_eq] at room ⊢
      omega

theorem hasRoom_zero (memory : Memory) : memory.hasRoom 0 = true := by
  simp [hasRoom]

theorem reserve_eq_ok_iff {width : Nat} {done : Unit} :
    memory.reserve width = .ok done ↔ memory.hasRoom width = true := by
  rw [reserve]
  by_cases room : memory.hasRoom width = true
  · simp [room]
  · rw [if_neg room]
    split_ifs <;> simp [room]

end Memory

/-- How many bits are missing to the next byte boundary. -/
def filling (length : Nat) : Nat := (8 - length % 8) % 8

namespace BitWriter

/-- The writer stands for a bit string: its bytes are those bits and zeros up to the next byte
boundary. -/
structure Holds (w : BitWriter) (written : List Bool) : Prop where
  bytes : bitsOfBytes w.toBytes = written ++ List.replicate (filling written.length) false
  offset : w.bitOffset = written.length % 8

@[simp] theorem length_toBytes (w : BitWriter) : w.toBytes.length = w.bytes.size :=
  Array.length_toList

theorem holds_empty : empty.Holds [] := ⟨rfl, rfl⟩

namespace Holds

variable {w : BitWriter} {written : List Bool}

theorem size (holds : w.Holds written) :
    8 * w.bytes.size = written.length + filling written.length := by
  have lengths := congrArg List.length holds.bytes
  simpa [toBytes] using lengths

theorem bitLength (holds : w.Holds written) : w.bitLength = written.length := by
  have size := holds.size
  rw [filling] at size
  rw [BitWriter.bitLength, holds.offset]
  split <;> omega

theorem bits (holds : w.Holds written) : w.bits = written := by
  rw [BitWriter.bits, holds.bytes, holds.bitLength, List.take_left]

/-- What has been appended is known from what a writer holds. -/
theorem added_eq {added other : List Bool} (holds : w.Holds (written ++ added))
    (holds' : w.Holds (written ++ other)) : added = other :=
  List.append_cancel_left (holds.bits.symm.trans holds'.bits)

/-- Writers that hold the same bits have the same bytes. -/
theorem toBytes_eq {w' : BitWriter} (holds : w.Holds written) (holds' : w'.Holds written) :
    w'.toBytes = w.toBytes :=
  bitsOfBytes_injective (holds'.bytes.trans holds.bytes.symm)

/-- A writer at a byte boundary has nothing in its last byte to fill up. -/
theorem bytes_of_aligned (holds : w.Holds written) (aligned : w.bitOffset = 0) :
    bitsOfBytes w.toBytes = written := by
  have offset := holds.offset
  rw [holds.bytes, show filling written.length = 0 by unfold filling; omega]
  simp

/-- A writer that holds whole bytes has these bytes. -/
theorem toBytes_of_bytes {data : List UInt8} (holds : w.Holds (bitsOfBytes data)) :
    w.toBytes = data := by
  have offset := holds.offset
  rw [length_bitsOfBytes, Nat.mul_mod_right] at offset
  exact bitsOfBytes_injective (holds.bytes_of_aligned offset)

/-- The bits of an incomplete last byte are the high bits of the number in it. -/
theorem exists_taken (holds : w.Holds written) :
    ∃ taken : List Bool, taken.length = w.bitOffset ∧
      written = bitsOfBytes w.closed.toList ++ taken ∧
      w.opened = natOfBits taken * 2 ^ (8 - w.bitOffset) := by
  by_cases aligned : w.bitOffset = 0
  · refine ⟨[], by simp [aligned], ?_, by simp [opened, aligned, natOfBits]⟩
    simpa [closed, aligned, toBytes] using (holds.bytes_of_aligned aligned).symm
  · have offset := holds.offset
    have size := holds.size
    rw [filling] at size
    obtain ⟨front, last, parts⟩ : ∃ front last, w.bytes = Array.push front last :=
      Array.eq_push_of_size_ne_zero (by omega)
    have bytes := holds.bytes
    rw [parts, Array.size_push] at size
    rw [toBytes, parts, Array.toList_push, bitsOfBytes_append, bitsOfBytes_cons, bitsOfBytes_nil,
      List.append_nil] at bytes
    have whole : (bitsOfBytes front.toList).length = 8 * front.size := by simp
    -- The bit string reaches into the last byte, so it starts with all bytes before that one.
    have front_first := List.prefix_append (bitsOfBytes front.toList) (bitsOfByte last)
    rw [bytes] at front_first
    obtain ⟨taken, rfl⟩ : bitsOfBytes front.toList <+: written :=
      List.prefix_of_prefix_length_le front_first (List.prefix_append _ _) (by omega)
    rw [List.append_assoc, List.append_cancel_left_eq] at bytes
    have length : taken.length = w.bitOffset := by
      rw [List.length_append] at offset size
      omega
    refine ⟨taken, length, by simp [closed, aligned, parts], ?_⟩
    -- Behind the taken bits the last byte has only zeros, so its number is theirs moved up.
    have zeros := congrArg List.length bytes
    rw [length_bitsOfByte, List.length_append, List.length_replicate] at zeros
    have number := congrArg natOfBits bytes
    rw [natOfBits_bitsOfByte, natOfBits_append, natOfBits_replicate_false, List.length_replicate,
      Nat.add_zero] at number
    rw [opened, if_neg aligned, parts, Array.back?_push, Option.getD_some, number]
    congr 2
    omega

/-- The window spells the taken bits, the new ones and the new filling, and no more. -/
theorem exists_taken_window (holds : w.Holds written) (value : Int) (width : Nat) :
    ∃ taken : List Bool, taken.length = w.bitOffset ∧
      written = bitsOfBytes w.closed.toList ++ taken ∧
      8 * w.windowBytes width = taken.length + width + filling (written.length + width) ∧
      w.window value width =
        (natOfBits taken * 2 ^ width + lowBits width value) *
          2 ^ filling (written.length + width) := by
  obtain ⟨taken, length, parts, opened⟩ := holds.exists_taken
  have offset := holds.offset
  have total : 8 * w.windowBytes width = taken.length + width + filling (written.length + width) := by
    unfold windowBytes filling
    omega
  refine ⟨taken, length, parts, total, ?_⟩
  have rest : 8 * w.windowBytes width - (w.bitOffset + width) = filling (written.length + width) := by
    omega
  rw [window, opened, rest, Nat.shiftLeft_eq, Nat.shiftLeft_eq, Nat.add_mul]
  congr 1
  rw [Nat.mul_assoc, Nat.mul_assoc, ← Nat.pow_add, ← Nat.pow_add]
  -- The window is as many bytes less one above the taken bits, unless there are none at all.
  rcases Nat.eq_zero_or_pos (w.windowBytes width) with none | some
  · rw [List.length_eq_zero_iff.mp (by omega : taken.length = 0)]
    simp [natOfBits]
  · congr 2
    unfold windowBytes at some
    omega

/-- The window fits into its bytes. -/
theorem window_lt (holds : w.Holds written) (value : Int) (width : Nat) :
    w.window value width < 256 ^ w.windowBytes width := by
  obtain ⟨taken, -, -, total, window⟩ := holds.exists_taken_window value width
  have high := natOfBits_lt taken
  have low := lowBits_lt width value
  rw [show (256 : Nat) = 2 ^ 8 from rfl, ← Nat.pow_mul, total, window, Nat.pow_add, Nat.pow_add]
  refine Nat.mul_lt_mul_of_pos_right ?_ (Nat.two_pow_pos _)
  calc natOfBits taken * 2 ^ width + lowBits width value
      < natOfBits taken * 2 ^ width + 2 ^ width := Nat.add_lt_add_left low _
    _ = (natOfBits taken + 1) * 2 ^ width := by ring
    _ ≤ 2 ^ taken.length * 2 ^ width := Nat.mul_le_mul_right _ high

/-- The bytes that replace an incomplete last byte continue the bit string. -/
theorem bits_window (holds : w.Holds written) (value : Int) (width : Nat) :
    bitsOfBytes (w.closed.toList ++ bytesOfNat (w.windowBytes width) (w.window value width)) =
      (written ++ bitsOfNat width (lowBits width value)) ++
        List.replicate (filling (written.length + width)) false := by
  obtain ⟨taken, -, parts, total, window⟩ := holds.exists_taken_window value width
  rw [bitsOfBytes_append, bitsOfBytes_bytesOfNat, total, window,
    ← Nat.add_zero (_ * 2 ^ filling _), bitsOfNat_append _ _ _ _ (Nat.two_pow_pos _),
    bitsOfNat_append _ _ _ _ (lowBits_lt width value), bitsOfNat_natOfBits, bitsOfNat_zero, parts]
  simp only [List.append_assoc]

/-- Writing an integer appends its low bits. -/
theorem writeInt (holds : w.Holds written) (value : Int) {width : Integer}
    (positive : 1 ≤ width.toInt) :
    ∃ w', w.writeInt value width = .ok w' ∧
      w'.Holds (written ++ bitsOfNat width.toNat (lowBits width.toNat value)) := by
  refine ⟨_, if_neg (by omega), ?_, ?_⟩
  · rw [List.length_append, length_bitsOfNat]
    simpa [toBytes] using holds.bits_window value width.toNat
  · change (w.bitOffset + width.toNat) % 8 = _
    rw [List.length_append, length_bitsOfNat, holds.offset, Nat.mod_add_mod]

/-- Writing whole bytes at a byte boundary appends their bits. -/
theorem writeBytes (holds : w.Holds written) (aligned : w.bitOffset = 0) (data : List UInt8) :
    ∃ w', w.writeBytes data = .ok w' ∧ w'.Holds (written ++ bitsOfBytes data) := by
  have offset := holds.offset
  have length : (written ++ bitsOfBytes data).length % 8 = 0 := by simp; omega
  refine ⟨_, if_pos aligned, ?_, by simpa [aligned] using length.symm⟩
  rw [filling, length]
  simpa [toBytes] using holds.bytes_of_aligned aligned

end Holds

section Room

variable {memory : Memory} {w w' : BitWriter}

/-- A number for which there is room is written as if there were no limit. -/
theorem writeIntWithin_of_hasRoom {value : Int} {width : Integer}
    (room : memory.hasRoom width.toNat = true) :
    w.writeIntWithin memory value width = w.writeInt value width := by
  rw [writeIntWithin, Memory.reserve, if_pos room]
  rfl

/-- What is written with limited room is written without a limit too. -/
theorem writeInt_of_writeIntWithin {value : Int} {width : Integer}
    (wrote : w.writeIntWithin memory value width = .ok w') : w.writeInt value width = .ok w' := by
  obtain ⟨-, -, wrote⟩ := bind_eq_ok_iff.mp wrote
  exact wrote

/-- The width of a number is checked first; zero bits would always have room. -/
theorem writeIntWithin_eq (w : BitWriter) (value : Int) (width : Integer) :
    w.writeIntWithin memory value width =
      if width.toInt < 1 then .error (.widthNotPositive width)
      else if memory.hasRoom width.toNat then w.writeInt value width
      else if Memory.widest < width.toNat then .error .numberTooWide
      else .error .outOfMemory := by
  split_ifs with narrow room wide
  · have none_needed : width.toNat = 0 := by unfold Integer.toNat; omega
    rw [writeIntWithin_of_hasRoom (none_needed ▸ memory.hasRoom_zero), writeInt, if_pos narrow]
  · exact writeIntWithin_of_hasRoom room
  · rw [writeIntWithin, Memory.reserve, if_neg room, if_pos wide]
    rfl
  · rw [writeIntWithin, Memory.reserve, if_neg room, if_neg wide]
    rfl

end Room

end BitWriter

/-- A request to a writer. -/
inductive WriteCall where
  | int (value : Int) (width : Integer)
  | zeros (width : Integer)
  | bytes (data : List UInt8)

namespace WriteCall

/-- The request carried out by a writer. -/
def perform (memory : Memory) (w : BitWriter) : WriteCall → Except CursorError BitWriter
  | .int value width => w.writeIntWithin memory value width
  | .zeros width => w.writeZeros memory width
  | .bytes data => w.writeBytes data

/-- The request is refused with an error of the class. -/
def Raises (memory : Memory) (w : BitWriter) (call : WriteCall) (errorClass : ErrorClass) : Prop :=
  ∃ error, call.perform memory w = .error error ∧ error.raised.errorClass = errorClass

/-- The bits that a request stands for. -/
def bits : WriteCall → List Bool
  | .int value width => bitsOfNat width.toNat (lowBits width.toNat value)
  | .zeros width => List.replicate width.toNat false
  | .bytes data => bitsOfBytes data

/-- What is wrong with a request to a bit string, if anything is: a width below one, or whole bytes
that would start inside a byte. -/
def misuse? (written : List Bool) : WriteCall → Option CursorError
  | .int _ width | .zeros width =>
    if width.toInt < 1 then some (.widthNotPositive width) else none
  | .bytes _ =>
    if written.length % 8 = 0 then none else some (.unalignedWrite (written.length % 8))

/-- Why there can be no number as wide as a request, if there cannot: it would be wider than any
number, or than there is room for. -/
def shortage? (memory : Memory) : WriteCall → Option CursorError
  | .int _ width | .zeros width =>
    if memory.hasRoom width.toNat then none
    else if Memory.widest < width.toNat then some .numberTooWide
    else some .outOfMemory
  | .bytes _ => none

/-- Why a bit string refuses a request, if it does. -/
def refusal? (memory : Memory) (written : List Bool) (call : WriteCall) : Option CursorError :=
  (call.misuse? written).or (call.shortage? memory)

/-- A misused writer raises a value error, also where the message cannot be written. -/
theorem errorClass_of_misuse? {written : List Bool} (call : WriteCall) {error : CursorError}
    (misuse : call.misuse? written = some error) : error.raised.errorClass = .value := by
  have sort : error.errorClass = .value := by
    cases call with
    | int value width | zeros width =>
      obtain ⟨-, same⟩ := Option.ite_none_right_eq_some.mp misuse
      cases same
      rfl
    | bytes data =>
      obtain ⟨-, same⟩ := Option.ite_none_left_eq_some.mp misuse
      cases same
      rfl
  rw [CursorError.raised, Raised.errorClass_saying, sort, ite_self]

theorem eq_of_shortage? {memory : Memory} (call : WriteCall) {error : CursorError}
    (shortage : call.shortage? memory = some error) :
    error = .numberTooWide ∨ error = .outOfMemory := by
  cases call with
  | int value width | zeros width =>
    simp only [shortage?] at shortage
    split_ifs at shortage <;> simp_all
  | bytes data => cases shortage

/-- A bit string after a request. -/
def appendTo (memory : Memory) (written : List Bool) (call : WriteCall) : List Bool :=
  match call.refusal? memory written with
  | none => written ++ call.bits
  | some _ => written

end WriteCall

namespace BitWriter

/-- The writer after a request, which leaves it as it was if it is refused. -/
def after (memory : Memory) (w : BitWriter) (call : WriteCall) : BitWriter :=
  match call.perform memory w with
  | .ok w => w
  | .error _ => w

/-- The writer after requests one after another. -/
def run (memory : Memory) (w : BitWriter) (calls : List WriteCall) : BitWriter :=
  calls.foldl (after memory) w

namespace Holds

variable {memory : Memory} {w : BitWriter} {written : List Bool}

theorem perform_error (holds : w.Holds written) (call : WriteCall) {error : CursorError}
    (refused : call.refusal? memory written = some error) : call.perform memory w = .error error := by
  have offset := holds.offset
  rw [WriteCall.refusal?, Option.or_eq_some_iff] at refused
  cases call with
  | int value width | zeros width =>
    simp only [WriteCall.perform, writeZeros, writeIntWithin_eq]
    simp only [WriteCall.misuse?, WriteCall.shortage?] at refused
    split_ifs at refused ⊢ <;> simp_all
  | bytes data =>
    simp only [WriteCall.misuse?, WriteCall.shortage?] at refused
    split_ifs at refused with aligned
    · simp at refused
    · obtain rfl : CursorError.unalignedWrite (written.length % 8) = error := by simpa using refused
      rw [← offset]
      exact if_neg (by omega)

theorem perform_ok (holds : w.Holds written) (call : WriteCall)
    (accepted : call.refusal? memory written = none) :
    ∃ w', call.perform memory w = .ok w' ∧ w'.Holds (written ++ call.bits) := by
  have offset := holds.offset
  rw [WriteCall.refusal?, Option.or_eq_none_iff] at accepted
  obtain ⟨wellMade, enough⟩ := accepted
  -- Zero bits are the integer zero.
  have number : ∀ value width, (WriteCall.int value width).misuse? written = none →
      (WriteCall.int value width).shortage? memory = none →
      ∃ w', w.writeIntWithin memory value width = .ok w' ∧
        w'.Holds (written ++ bitsOfNat width.toNat (lowBits width.toNat value)) := by
    intro value width wellMade enough
    rw [writeIntWithin_eq]
    simp only [WriteCall.misuse?, WriteCall.shortage?] at wellMade enough
    split_ifs at wellMade enough ⊢ with narrow room
    exact holds.writeInt value (by omega)
  cases call with
  | int value width => exact number value width wellMade enough
  | zeros width =>
    obtain ⟨w', wrote, holds'⟩ := number 0 width wellMade enough
    refine ⟨w', wrote, ?_⟩
    simpa [lowBits, WriteCall.bits] using holds'
  | bytes data =>
    simp only [WriteCall.misuse?, ite_eq_left_iff, reduceCtorEq, imp_false, not_not] at wellMade
    exact holds.writeBytes (by omega) data

/-- A request to the writer is refused exactly as one to the bit string. -/
theorem perform_eq_error_iff (holds : w.Holds written) (call : WriteCall) (error : CursorError) :
    call.perform memory w = .error error ↔ call.refusal? memory written = some error := by
  refine ⟨fun refused => ?_, holds.perform_error call⟩
  cases verdict : call.refusal? memory written with
  | none =>
    obtain ⟨w', written', -⟩ := holds.perform_ok call verdict
    rw [written'] at refused
    cases refused
  | some reason =>
    rw [holds.perform_error call verdict] at refused
    cases refused
    rfl

/-- Misuse is met as a value error, and nothing else is. Where a request is well made but there is no
number for it, that is an overflow or want of memory. -/
theorem raises_iff (memory : Memory) (holds : w.Holds written) (call : WriteCall) :
    (call.Raises memory w .value ↔ call.misuse? written ≠ none) ∧
      (call.Raises memory w .overflow ↔
        call.misuse? written = none ∧ call.shortage? memory = some .numberTooWide) ∧
      (call.Raises memory w .memory ↔
        call.misuse? written = none ∧ call.shortage? memory = some .outOfMemory) := by
  simp only [WriteCall.Raises, holds.perform_eq_error_iff, WriteCall.refusal?]
  cases misuse : call.misuse? written with
  | some error => simp [call.errorClass_of_misuse? misuse]
  | none =>
    cases shortage : call.shortage? memory with
    | none => simp
    | some error =>
      rcases call.eq_of_shortage? shortage with rfl | rfl <;> decide

/-- One request keeps writer and bit string in step. -/
theorem after (holds : w.Holds written) (call : WriteCall) :
    (w.after memory call).Holds (call.appendTo memory written) := by
  rw [BitWriter.after, WriteCall.appendTo]
  cases verdict : call.refusal? memory written with
  | none =>
    obtain ⟨w', written', holds'⟩ := holds.perform_ok call verdict
    rw [written']
    exact holds'
  | some reason =>
    rw [holds.perform_error call verdict]
    exact holds

/-- Any number of requests keep writer and bit string in step. -/
theorem run (holds : w.Holds written) (calls : List WriteCall) :
    (w.run memory calls).Holds (calls.foldl (WriteCall.appendTo memory) written) := by
  -- Whatever has been written before; the first request leads to the same situation again.
  induction calls generalizing w written with
  | nil => exact holds
  | cons call calls ih => exact ih (holds.after call)

end Holds

/-- After any run of requests a new writer holds the bits of those that were not refused, one after
another: its bytes are these bits and fewer than eight zeros, its length and its offset are theirs.
A request is refused with a value error for a width below one or for whole bytes inside a byte. A
request of another width is refused only if no number is as wide or there is no room for one, which
is an overflow or want of memory. A refused request leaves the writer as it was, any other one turns
it into what it returns, and the window of the next write always fits into its bytes. -/
theorem run_refines_bitString (memory : Memory) (calls : List WriteCall) :
    let w := empty.run memory calls
    let written := calls.foldl (WriteCall.appendTo memory) []
    (∃ zeros < 8, bitsOfBytes w.toBytes = written ++ List.replicate zeros false) ∧
    w.bitLength = written.length ∧
    w.bitOffset = w.bitLength % 8 ∧
    (∀ (call : WriteCall) (error : CursorError),
      call.perform memory w = .error error ↔ call.refusal? memory written = some error) ∧
    (∀ call : WriteCall,
      (call.Raises memory w .value ↔ call.misuse? written ≠ none) ∧
      (call.Raises memory w .overflow ↔
        call.misuse? written = none ∧ call.shortage? memory = some .numberTooWide) ∧
      (call.Raises memory w .memory ↔
        call.misuse? written = none ∧ call.shortage? memory = some .outOfMemory)) ∧
    (∀ (call : WriteCall) (error : CursorError),
      call.perform memory w = .error error → w.after memory call = w) ∧
    (∀ (call : WriteCall) (w' : BitWriter),
      call.perform memory w = .ok w' → w.after memory call = w') ∧
    (∀ value width, w.window value width < 256 ^ w.windowBytes width) := by
  intro w written
  have holds : w.Holds written := holds_empty.run calls
  refine ⟨⟨filling written.length, by unfold filling; omega, holds.bytes⟩, holds.bitLength,
    by rw [holds.bitLength, holds.offset], holds.perform_eq_error_iff, holds.raises_iff memory, ?_, ?_,
    holds.window_lt⟩
  · intro call error refused
    rw [after, refused]
  · intro call w' wrote
    rw [after, wrote]

/-- There is no number of so many bits, on any machine with a limit, so a new writer refuses a request
that is well made. -/
theorem raises_overflow_numberTooWide :
    (WriteCall.int 0 (.number (2 ^ 70))).misuse? [] = none ∧
      (WriteCall.int 0 (.number (2 ^ 70))).Raises .ordinary empty .overflow ∧
      ¬(WriteCall.int 0 (.number (2 ^ 70))).Raises .ordinary empty .value := by
  obtain ⟨value, overflow, -⟩ := holds_empty.raises_iff .ordinary (.int 0 (.number (2 ^ 70)))
  exact ⟨rfl, overflow.mpr ⟨rfl, rfl⟩, fun raised => value.mp raised rfl⟩

end BitWriter

end BitLayout
