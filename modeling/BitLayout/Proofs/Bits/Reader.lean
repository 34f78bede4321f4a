import BitLayout.Bits.Reader
import BitLayout.Proofs.Bits.BitString
import BitLayout.Proofs.Bits.Writer
import BitLayout.Proofs.Text.Numeral

/-!
# A reader is a place in a bit string

A reader at bit `p` of its data has the bits from `p` on before it. A read takes them off the front,
however it cuts them out of whole bytes, and moves the place by as many bits; a refused request
moves nothing. A request is refused for what it asks (a width below one, a negative count, whole
bytes inside a byte) or else for what is left.

## Main definitions

* `BitReader.Valid`: the place lies inside the data
* `ReadCall`, `BitReader.run`: requests to a reader, one after another
* `ReadCall.misuse?`, `ReadCall.request`, `ReadCall.answer`, `ReadCall.expected`: the same for a bit
  string and a place in it

## Main results

* `BitReader.readNat_eq`, `BitReader.skip_eq`, `BitReader.readBytes_eq`: what each request does
* `BitReader.run_refines_bitCursor`: every run of requests moves over the bit string
-/

namespace BitLayout

namespace BitReader

/-- The place lies inside the data, and the bit offset inside a byte. -/
structure Valid (r : BitReader) : Prop where
  offset_lt : r.bitOffset < 8
  within : r.position ≤ 8 * r.data.size

theorem valid_ofBytes (data : List UInt8) : (ofBytes data).Valid :=
  ⟨by simp [ofBytes], by simp [ofBytes, position]⟩

section Place

variable {r : BitReader}

@[simp] theorem data_advance (r : BitReader) (count : Nat) : (r.advance count).data = r.data := rfl

@[simp] theorem position_advance (r : BitReader) (count : Nat) :
    (r.advance count).position = r.position + count := by
  simp only [position, advance]
  omega

@[simp] theorem advance_advance (r : BitReader) (count more : Nat) :
    (r.advance count).advance more = r.advance (count + more) := by
  simp only [advance, mk.injEq, true_and]
  omega

@[simp] theorem bitOffset_advance (r : BitReader) (count : Nat) :
    (r.advance count).bitOffset = (r.bitOffset + count) % 8 := rfl

theorem Valid.advance_zero (valid : r.Valid) : r.advance 0 = r := by
  have offset := valid.offset_lt
  rw [BitReader.advance, Nat.add_zero, Nat.div_eq_of_lt offset, Nat.mod_eq_of_lt offset]
  rfl

theorem Valid.bitOffset_eq (valid : r.Valid) : r.bitOffset = r.position % 8 := by
  have offset := valid.offset_lt
  unfold position
  omega

@[simp] theorem length_remaining (r : BitReader) : r.remaining.length = r.bitsRemaining := by
  simp [remaining, bitsRemaining]

@[simp] theorem remaining_advance (r : BitReader) (count : Nat) :
    (r.advance count).remaining = r.remaining.drop count := by
  rw [remaining, position_advance, data_advance, remaining, List.drop_drop]

theorem Valid.advance (valid : r.Valid) {count : Nat} (available : count ≤ r.bitsRemaining) :
    (r.advance count).Valid := by
  have within := valid.within
  refine ⟨Nat.mod_lt _ (by decide), ?_⟩
  rw [position_advance, data_advance]
  unfold bitsRemaining at available
  omega

@[simp] theorem position_ofBytes (data : List UInt8) : (ofBytes data).position = 0 := rfl

@[simp] theorem remaining_ofBytes (data : List UInt8) :
    (ofBytes data).remaining = bitsOfBytes data := rfl

@[simp] theorem bitsRemaining_ofBytes (data : List UInt8) :
    (ofBytes data).bitsRemaining = 8 * data.length := rfl

/-- The whole bytes left over are those behind the byte that the place lies in. -/
theorem Valid.trailingBytes_eq (valid : r.Valid) :
    r.trailingBytes = r.data.size - (r.position + 7) / 8 := by
  have offset := valid.bitOffset_eq
  have within := valid.within
  unfold trailingBytes bitsRemaining
  omega

theorem Valid.bitsRemaining_eq (valid : r.Valid) :
    (r.bitsRemaining : Int) = 8 * r.data.size - r.position := by
  have within := valid.within
  unfold bitsRemaining
  omega

end Place

section Requests

variable {r : BitReader}

/-- The bytes from the current one on are the bits before the place in it and the remaining bits. -/
private theorem bits_from_byte (r : BitReader) :
    ((bitsOfBytes r.data.toList).drop (8 * r.byteIndex)).drop r.bitOffset = r.remaining := by
  rw [List.drop_drop]
  rfl

/-- The number cut out of whole bytes is that of the bits from the current place on. -/
theorem Valid.window_eq (valid : r.Valid) {width : Nat} (available : width ≤ r.bitsRemaining) :
    natOfBytes (r.data.extract r.byteIndex
        (r.byteIndex + (r.bitOffset + width + 7) / 8)).toList /
      2 ^ (8 * ((r.bitOffset + width + 7) / 8) - (r.bitOffset + width)) % 2 ^ width =
      natOfBits (r.remaining.take width) := by
  have offset := valid.offset_lt
  have within := valid.within
  let bits := (bitsOfBytes r.data.toList).drop (8 * r.byteIndex)
  let pad := 8 * ((r.bitOffset + width + 7) / 8) - (r.bitOffset + width)
  have total : 8 * ((r.bitOffset + width + 7) / 8) = r.bitOffset + width + pad := by omega
  have length : bits.length = 8 * (r.data.size - r.byteIndex) := by simp [bits]; omega
  have enough : r.bitOffset + width + pad ≤ bits.length := by
    unfold bitsRemaining at available
    unfold position at available within
    omega
  -- The window has the bits before the place, those asked for and those up to a byte boundary.
  have cut : bitsOfBytes (r.data.extract r.byteIndex
      (r.byteIndex + (r.bitOffset + width + 7) / 8)).toList =
      bits.take r.bitOffset ++ r.remaining.take width ++
        (bits.drop (r.bitOffset + width)).take pad := by
    rw [Array.toList_extract, List.extract_eq_drop_take', ← bits_from_byte, ← List.take_add,
      ← List.take_add, ← total, List.drop_take, bitsOfBytes_take, bitsOfBytes_drop]
    congr 2
    omega
  have middle := natOfBits_middle (bits.take r.bitOffset) (r.remaining.take width)
    ((bits.drop (r.bitOffset + width)).take pad)
  have taken : (r.remaining.take width).length = width := by simpa using available
  have rest : ((bits.drop (r.bitOffset + width)).take pad).length = pad := by
    rw [List.length_take, List.length_drop]
    omega
  rw [taken, rest] at middle
  rw [natOfBytes_eq, cut, middle]

/-- What reading a number does. -/
theorem readNat_eq (valid : r.Valid) (width : Integer) :
    r.readNat width =
      if width.toInt < 1 then .error (.widthNotPositive width)
      else if r.bitsRemaining < width.toNat then .error (.outOfBits width r.bitsRemaining)
      else .ok (natOfBits (r.remaining.take width.toNat), r.advance width.toNat) := by
  rw [readNat, require]
  split
  · rfl
  · rw [if_neg (by omega)]
    split
    · rfl
    · simp only [bind, Except.bind, Nat.shiftRight_eq_div_pow, Nat.one_shiftLeft]
      rw [valid.window_eq (by omega)]

/-- What passing over bits does. -/
theorem skip_eq (r : BitReader) (count : Integer) :
    r.skip count =
      if count.toInt < 0 then .error (.countNegative count)
      else if r.bitsRemaining < count.toNat then .error (.outOfBits count r.bitsRemaining)
      else .ok (r.advance count.toNat) := by
  rw [skip, require]
  split
  · rfl
  · split <;> rfl

/-- What reading whole bytes does. -/
theorem readBytes_eq (r : BitReader) (count : Integer) :
    r.readBytes count =
      if r.bitOffset ≠ 0 then .error (.unalignedRead r.bitOffset)
      else if count.toInt < 0 then .error (.countNegative (.number (count.toInt * 8)))
      else if r.bitsRemaining < 8 * count.toNat then
        .error (.outOfBits (.number (count.toInt * 8)) r.bitsRemaining)
      else .ok ((r.data.toList.drop r.byteIndex).take count.toNat, r.advance (8 * count.toNat)) := by
  have negative : (Integer.number (count.toInt * 8)).toInt < 0 ↔ count.toInt < 0 := by
    change count.toInt * 8 < 0 ↔ _
    omega
  have bits : (Integer.number (count.toInt * 8)).toNat = 8 * count.toNat := by
    change (count.toInt * 8).toNat = 8 * count.toInt.toNat
    omega
  rw [readBytes, require]
  simp only [negative, bits]
  split
  · rfl
  · rename_i aligned
    have aligned : r.bitOffset = 0 := by omega
    split
    · rfl
    · split
      · rfl
      · have place : r.byteIndex + count.toNat = r.byteIndex + (0 + 8 * count.toNat) / 8 := by omega
        have offset : 0 = (0 + 8 * count.toNat) % 8 := by omega
        simp only [bind, Except.bind, Array.toList_extract, List.extract_eq_drop_take', advance,
          aligned, ← place, ← offset, List.drop_take, Nat.add_sub_cancel_left]

/-- The bytes that a read takes are the bits from the current place on. -/
theorem bitsOfBytes_take_drop (aligned : r.bitOffset = 0) (count : Nat) :
    bitsOfBytes ((r.data.toList.drop r.byteIndex).take count) = r.remaining.take (8 * count) := by
  rw [bitsOfBytes_take, bitsOfBytes_drop, remaining, position, aligned, Nat.add_zero]

end Requests

end BitReader

/-- A request to a reader. -/
inductive ReadCall where
  | nat (width : Integer)
  | skip (count : Integer)
  | bytes (count : Integer)

/-- What a request gives back. -/
inductive ReadAnswer where
  | number (n : Nat)
  | nothing
  | bytes (raw : List UInt8)

namespace ReadCall

/-- The request carried out by a reader. -/
def perform (r : BitReader) : ReadCall → Except CursorError (ReadAnswer × BitReader)
  | .nat width => do
    let (n, r) ← r.readNat width
    .ok (.number n, r)
  | .skip count => do
    let r ← r.skip count
    .ok (.nothing, r)
  | .bytes count => do
    let (raw, r) ← r.readBytes count
    .ok (.bytes raw, r)

/-- The request is refused with an error of the class. -/
def Raises (r : BitReader) (call : ReadCall) (errorClass : ErrorClass) : Prop :=
  ∃ error, call.perform r = .error error ∧ error.raised.errorClass = errorClass

/-- How many bits a request asks for. -/
def request : ReadCall → Integer
  | .nat width => width
  | .skip count => count
  | .bytes count => .number (count.toInt * 8)

/-- Why a request at bit `position` is refused whatever the data, if it is. -/
def misuse? (position : Nat) : ReadCall → Option CursorError
  | .nat width => if width.toInt < 1 then some (.widthNotPositive width) else none
  | .skip count => if count.toInt < 0 then some (.countNegative count) else none
  | .bytes count =>
    if position % 8 ≠ 0 then some (.unalignedRead (position % 8))
    else if count.toInt < 0 then some (.countNegative (.number (count.toInt * 8)))
    else none

/-- What a request at bit `position` of a byte string gives back if there are enough bits. -/
def answer (data : List UInt8) (position : Nat) : ReadCall → ReadAnswer
  | .nat width => .number (natOfBits (((bitsOfBytes data).drop position).take width.toNat))
  | .skip _ => .nothing
  | .bytes count => .bytes ((data.drop (position / 8)).take count.toNat)

/-- What a request at bit `position` of a byte string comes to: an error, or an answer and the place
after it. -/
def expected (data : List UInt8) (position : Nat) (call : ReadCall) :
    Except CursorError (ReadAnswer × Nat) :=
  match call.misuse? position with
  | some error => .error error
  | none =>
    if 8 * data.length - position < call.request.toNat then
      .error (.outOfBits call.request (8 * data.length - position))
    else .ok (call.answer data position, position + call.request.toNat)

/-- A misused reader raises a value error, also where the message cannot be written. -/
theorem errorClass_of_misuse? {position : Nat} (call : ReadCall) {error : CursorError}
    (misuse : call.misuse? position = some error) : error.raised.errorClass = .value := by
  have sort : error.errorClass = .value := by
    cases call with
    | nat width | skip width =>
      obtain ⟨-, same⟩ := Option.ite_none_right_eq_some.mp misuse
      cases same
      rfl
    | bytes count =>
      rw [misuse?] at misuse
      split_ifs at misuse <;> cases misuse <;> rfl
  rw [CursorError.raised, Raised.errorClass_saying, sort, ite_self]

end ReadCall

/-- Want of bits is an index error, unless the number of bits asked for cannot be written into its
message. -/
theorem CursorError.errorClass_raised_outOfBits {need : Integer} {available : Nat}
    (short : available < need.toNat) :
    (outOfBits need available).raised.errorClass =
      if need.written.isWritable then .index else .value := by
  -- What is left has a numeral if the greater number does.
  have enough : need.written.isWritable = true → (Wording.ofNat available).isWritable = true := by
    intro writable
    rw [Wording.isWritable_ofNat_iff]
    cases need with
    | number n =>
      cases n with
      | ofNat n =>
        have less : available < n := short
        have few := Wording.isWritable_ofNat_iff.mp writable
        omega
      | negSucc n => cases short
    | truth b =>
      have small : (Integer.truth b).toNat ≤ 1 := by cases b <;> decide
      have several : 1 ≤ 10 ^ maxDigits := Nat.pow_pos (by decide)
      omega
  have message : (outOfBits need available).message.isWritable = need.written.isWritable := by
    have fixed : (Wording.ofText "Not enough bits: need ").isWritable = true := rfl
    have fixed' : (Wording.ofText ", have ").isWritable = true := rfl
    rw [message]
    simp only [Wording.isWritable_append, fixed, fixed', Bool.true_and, Bool.and_true]
    cases writable : need.written.isWritable with
    | false => rfl
    | true => exact enough writable
  rw [raised, Raised.errorClass_saying, message]
  rfl

namespace BitReader

/-- The reader after a request, which leaves it as it was if it is refused. -/
def after (r : BitReader) (call : ReadCall) : BitReader :=
  match call.perform r with
  | .ok (_, r) => r
  | .error _ => r

/-- The reader after requests one after another. -/
def run (r : BitReader) (calls : List ReadCall) : BitReader := calls.foldl after r

section Runs

variable {r : BitReader}

/-- A request succeeds with an answer and the place moved on, or is refused. -/
theorem Valid.perform_eq (valid : r.Valid) (call : ReadCall) :
    call.perform r =
      match call.misuse? r.position with
      | some error => .error error
      | none =>
        if r.bitsRemaining < call.request.toNat then
          .error (.outOfBits call.request r.bitsRemaining)
        else .ok (call.answer r.data.toList r.position, r.advance call.request.toNat) := by
  have offset := valid.bitOffset_eq
  cases call with
  | nat width =>
    rw [ReadCall.perform, readNat_eq valid, ReadCall.misuse?, ReadCall.request]
    split_ifs <;> rfl
  | skip count =>
    rw [ReadCall.perform, skip_eq, ReadCall.misuse?, ReadCall.request]
    split_ifs <;> rfl
  | bytes count =>
    -- Bytes are asked for by their count, but checked and passed as bits.
    have bits : (ReadCall.bytes count).request.toNat = 8 * count.toNat := by
      change (count.toInt * 8).toNat = 8 * count.toInt.toNat
      omega
    have place : r.position / 8 = r.byteIndex := by
      have small := valid.offset_lt
      unfold position
      omega
    rw [ReadCall.perform, readBytes_eq, ReadCall.misuse?, bits, ReadCall.answer, place, ← offset]
    split_ifs <;> rfl

/-- One request keeps the data, stays inside it and never moves back. -/
theorem Valid.after (valid : r.Valid) (call : ReadCall) :
    (r.after call).Valid ∧ (r.after call).data = r.data ∧
      r.position ≤ (r.after call).position := by
  rw [BitReader.after, valid.perform_eq]
  cases call.misuse? r.position with
  | some error => exact ⟨valid, rfl, le_rfl⟩
  | none =>
    dsimp only
    split_ifs with short
    · exact ⟨valid, rfl, le_rfl⟩
    · exact ⟨valid.advance (by omega), rfl, by simp⟩

/-- Any number of requests keep the data and stay inside it. -/
theorem Valid.run (valid : r.Valid) (calls : List ReadCall) :
    (r.run calls).Valid ∧ (r.run calls).data = r.data := by
  -- One request at a time, from whichever place the ones before have led to.
  induction calls generalizing r with
  | nil => exact ⟨valid, rfl⟩
  | cons call calls ih =>
    obtain ⟨valid', data, -⟩ := valid.after call
    obtain ⟨valid'', data'⟩ := ih valid'
    exact ⟨valid'', data'.trans data⟩

/-- One request answers and moves as one to the bit string at the same place. -/
theorem Valid.perform_eq_expected (valid : r.Valid) (call : ReadCall) :
    (call.perform r).map (fun (answer, r) => (answer, r.position)) =
      call.expected r.data.toList r.position := by
  rw [valid.perform_eq, ReadCall.expected, Array.length_toList, ← bitsRemaining]
  cases call.misuse? r.position with
  | some error => rfl
  | none =>
    dsimp only
    split_ifs with short
    · rfl
    · simp [Except.map]

/-- The class of the error of a refused request. -/
theorem Valid.raises_iff (valid : r.Valid) (call : ReadCall) :
    (call.Raises r .value ↔ call.misuse? r.position ≠ none ∨
        r.bitsRemaining < call.request.toNat ∧ call.request.written.isWritable = false) ∧
      (call.Raises r .index ↔ call.misuse? r.position = none ∧
        r.bitsRemaining < call.request.toNat ∧ call.request.written.isWritable = true) := by
  simp only [ReadCall.Raises, valid.perform_eq]
  cases misuse : call.misuse? r.position with
  | some error => simp [call.errorClass_of_misuse? misuse]
  | none =>
    dsimp only
    split_ifs with short
    · have sort := CursorError.errorClass_raised_outOfBits short
      cases writable : call.request.written.isWritable <;> simp_all
    · simp [short]

end Runs

/-- After any run of requests the place of a reader lies inside the data, and the next request comes
to what it comes to for the bit string of the data at that place: it is refused for what it asks or
else for what is left, which leaves the reader as it was, or it answers with the bits in front and
moves the place by as many. The place never moves back. What is asked wrongly is a value error, and
what is asked beyond the end is an index error, unless its number of bits has no numeral for the
message: then that is a value error too. -/
theorem run_refines_bitCursor (data : List UInt8) (calls : List ReadCall) :
    let r := (ofBytes data).run calls
    r.bitOffset < 8 ∧
    r.position ≤ 8 * data.length ∧
    (r.bitsRemaining : Int) = 8 * data.length - r.position ∧
    ∀ call : ReadCall,
      (call.perform r).map (fun (answer, r') => (answer, r'.position)) =
        call.expected data r.position ∧
      (∀ answer r', call.perform r = .ok (answer, r') → r.after call = r') ∧
      (∀ error, call.perform r = .error error → r.after call = r) ∧
      r.position ≤ (r.after call).position ∧
      (call.Raises r .value ↔ call.misuse? r.position ≠ none ∨
        r.bitsRemaining < call.request.toNat ∧ call.request.written.isWritable = false) ∧
      (call.Raises r .index ↔ call.misuse? r.position = none ∧
        r.bitsRemaining < call.request.toNat ∧ call.request.written.isWritable = true) := by
  intro r
  obtain ⟨valid, same⟩ := (valid_ofBytes data).run calls
  have bytes : r.data.toList = data := by rw [same]; rfl
  have size : r.data.size = data.length := by rw [← Array.length_toList, bytes]
  refine ⟨valid.offset_lt, size ▸ valid.within, size ▸ valid.bitsRemaining_eq, fun call => ?_⟩
  refine ⟨bytes ▸ valid.perform_eq_expected call, fun answer r' read => ?_, fun error refused => ?_,
    (valid.after call).2.2, valid.raises_iff call⟩
  · rw [after, read]
  · rw [after, refused]

/-- A number of bits beyond the end of any data, and with too many digits for the message that would
say so. -/
theorem Valid.raises_value_of_long {r : BitReader} (valid : r.Valid) {count : Nat}
    (long : 10 ^ maxDigits ≤ count) (short : r.bitsRemaining < count) :
    (ReadCall.nat (.number count)).misuse? r.position = none ∧
      (ReadCall.nat (.number count)).Raises r .value ∧
      ¬(ReadCall.nat (.number count)).Raises r .index := by
  have unwritable : (Integer.number count).written.isWritable = false := by
    rw [Bool.eq_false_iff]
    intro writable
    have few := Wording.isWritable_ofNat_iff.mp writable
    omega
  have wellMade : (ReadCall.nat (.number count)).misuse? r.position = none := by
    refine if_neg ?_
    change ¬(count : Int) < 1
    omega
  obtain ⟨value, index⟩ := valid.raises_iff (.nat (.number count))
  refine ⟨wellMade, value.mpr (.inr ⟨short, unwritable⟩), fun raised => ?_⟩
  cases (index.mp raised).2.2.symm.trans unwritable

theorem raises_value_tooManyDigits :
    (ReadCall.nat (.number (10 ^ maxDigits : Nat))).misuse? (ofBytes []).position = none ∧
      (ReadCall.nat (.number (10 ^ maxDigits : Nat))).Raises (ofBytes []) .value ∧
      ¬(ReadCall.nat (.number (10 ^ maxDigits : Nat))).Raises (ofBytes []) .index :=
  (valid_ofBytes []).raises_value_of_long le_rfl (Nat.pow_pos (by decide))

end BitReader

end BitLayout
