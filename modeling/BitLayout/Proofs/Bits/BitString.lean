import BitLayout.Bits.Basic
import Mathlib.Data.Nat.Bitwise
import Mathlib.Tactic.Ring

/-!
# Numbers and bytes as bit strings

Joining bit strings is arithmetic: the number of `front ++ back` is that of `front` moved up by the
length of `back`, and a number of `front + back` bits splits into a quotient and a remainder. Byte
strings are bit strings whose length is a multiple of eight, so big-endian conversion between bytes
and numbers is the same arithmetic in steps of eight.
-/

namespace BitLayout

section Numbers

@[simp] theorem length_bitsOfNat (width n : Nat) : (bitsOfNat width n).length = width := by
  induction width with
  | zero => rfl
  | succ width ih => simp [bitsOfNat, ih]

/-- The high bits of a number are those of its quotient by a power of two. -/
theorem bitsOfNat_add (front back n : Nat) :
    bitsOfNat (front + back) n = bitsOfNat front (n / 2 ^ back) ++ bitsOfNat back n := by
  induction front with
  | zero => simp [bitsOfNat]
  | succ front ih =>
    rw [Nat.succ_add_eq_add_succ]
    change n.testBit (front + back) :: bitsOfNat (front + back) n = _
    rw [ih, bitsOfNat, Nat.testBit_div_two_pow]
    rfl

/-- Bits above the width do not show. -/
theorem bitsOfNat_mul_add (width high low : Nat) :
    bitsOfNat width (2 ^ width * high + low) = bitsOfNat width low := by
  -- The power has to stay where it is while the width goes down.
  suffices ∀ front, width ≤ front →
      bitsOfNat width (2 ^ front * high + low) = bitsOfNat width low from this width le_rfl
  induction width with
  | zero => intro front _; rfl
  | succ width ih =>
    intro front within
    rw [bitsOfNat, bitsOfNat, ih front (by omega)]
    congr 1
    have same := Nat.testBit_mod_two_pow (2 ^ front * high + low) front width
    have plain := Nat.testBit_mod_two_pow low front width
    rw [Nat.mul_add_mod, plain] at same
    simpa [show width < front by omega] using same.symm

@[simp] theorem bitsOfNat_mod (width n : Nat) : bitsOfNat width (n % 2 ^ width) = bitsOfNat width n := by
  conv => rhs; rw [← Nat.div_add_mod n (2 ^ width)]
  exact (bitsOfNat_mul_add width _ _).symm

/-- A number put above another one is a bit string put in front. -/
theorem bitsOfNat_append (front back high low : Nat) (fits : low < 2 ^ back) :
    bitsOfNat (front + back) (high * 2 ^ back + low) =
      bitsOfNat front high ++ bitsOfNat back low := by
  rw [bitsOfNat_add, Nat.mul_comm, bitsOfNat_mul_add,
    Nat.mul_add_div (Nat.two_pow_pos back), Nat.div_eq_of_lt fits, Nat.add_zero]

@[simp] theorem bitsOfNat_zero (width : Nat) : bitsOfNat width 0 = List.replicate width false := by
  induction width with
  | zero => rfl
  | succ width ih => simp [bitsOfNat, ih, List.replicate_succ]

private theorem foldl_bits (bits : List Bool) (start : Nat) :
    bits.foldl (fun n b => 2 * n + b.toNat) start = start * 2 ^ bits.length + natOfBits bits := by
  induction bits generalizing start with
  | nil => simp [natOfBits]
  | cons b bits ih =>
    rw [natOfBits, List.foldl_cons, List.foldl_cons, ih, ih (2 * 0 + b.toNat), List.length_cons]
    ring

theorem natOfBits_cons (b : Bool) (bits : List Bool) :
    natOfBits (b :: bits) = b.toNat * 2 ^ bits.length + natOfBits bits := by
  rw [natOfBits, List.foldl_cons, foldl_bits]
  simp

/-- A bit string put in front is a number put above another one. -/
theorem natOfBits_append (front back : List Bool) :
    natOfBits (front ++ back) = natOfBits front * 2 ^ back.length + natOfBits back := by
  rw [natOfBits, List.foldl_append, foldl_bits]
  rfl

theorem natOfBits_lt (bits : List Bool) : natOfBits bits < 2 ^ bits.length := by
  induction bits with
  | nil => simp [natOfBits]
  | cons b bits ih =>
    rw [natOfBits_cons, List.length_cons, pow_succ]
    cases b <;> simp only [Bool.toNat_false, Bool.toNat_true] <;> omega

/-- A bit string is the bits of the number it spells. -/
@[simp] theorem bitsOfNat_natOfBits (bits : List Bool) :
    bitsOfNat bits.length (natOfBits bits) = bits := by
  induction bits with
  | nil => rfl
  | cons b bits ih =>
    rw [natOfBits_cons, List.length_cons, Nat.add_comm,
      -- The first digit is a number of one bit, put above the others.
      bitsOfNat_append _ _ _ _ (natOfBits_lt bits), ih]
    cases b <;> rfl

/-- The bits of a number spell it up to the width. -/
@[simp] theorem natOfBits_bitsOfNat (width n : Nat) :
    natOfBits (bitsOfNat width n) = n % 2 ^ width := by
  induction width with
  | zero => simp [bitsOfNat, natOfBits, Nat.mod_one]
  | succ width ih =>
    rw [bitsOfNat, natOfBits_cons, length_bitsOfNat, ih, Nat.pow_succ, Nat.mod_mul,
      Nat.testBit_eq_decide_div_mod_eq]
    have digit : n / 2 ^ width % 2 = 0 ∨ n / 2 ^ width % 2 = 1 := by omega
    rcases digit with digit | digit <;> simp [digit, Nat.add_comm]

@[simp] theorem natOfBits_replicate_false (width : Nat) :
    natOfBits (List.replicate width false) = 0 := by
  rw [← bitsOfNat_zero, natOfBits_bitsOfNat, Nat.zero_mod]

/-- The number of a stretch of a bit string: the bits after it are divided off, those before it are
reduced away. -/
theorem natOfBits_middle (front middle back : List Bool) :
    natOfBits (front ++ middle ++ back) / 2 ^ back.length % 2 ^ middle.length =
      natOfBits middle := by
  rw [natOfBits_append, Nat.mul_comm, Nat.mul_add_div (Nat.two_pow_pos _),
    Nat.div_eq_of_lt (natOfBits_lt back), Nat.add_zero, natOfBits_append, Nat.mul_comm,
    Nat.mul_add_mod, Nat.mod_eq_of_lt (natOfBits_lt middle)]

/-- Keeping the low bits is taking the remainder by a power of two. -/
theorem lowBits_eq (width : Nat) (value : Int) :
    lowBits width value = (value % (2 ^ width : Nat)).toNat := by
  rw [lowBits, Nat.one_shiftLeft]

theorem lowBits_lt (width : Nat) (value : Int) : lowBits width value < 2 ^ width := by
  have positive : (0 : Int) < (2 ^ width : Nat) := by exact_mod_cast Nat.two_pow_pos width
  have below := Int.emod_lt_of_pos value positive
  have nonnegative := Int.emod_nonneg value positive.ne'
  rw [lowBits_eq]
  omega

/-- A number that fits into the width is kept. -/
theorem lowBits_natCast {width n : Nat} (fits : n < 2 ^ width) : lowBits width n = n := by
  rw [lowBits_eq, Int.emod_eq_of_lt (Int.natCast_nonneg n) (by exact_mod_cast fits), Int.toNat_natCast]

end Numbers

section Bytes

@[simp] theorem length_bitsOfByte (b : UInt8) : (bitsOfByte b).length = 8 := length_bitsOfNat _ _

@[simp] theorem bitsOfBytes_nil : bitsOfBytes [] = [] := rfl

@[simp] theorem bitsOfBytes_cons (b : UInt8) (bytes : List UInt8) :
    bitsOfBytes (b :: bytes) = bitsOfByte b ++ bitsOfBytes bytes := rfl

@[simp] theorem bitsOfBytes_append (front back : List UInt8) :
    bitsOfBytes (front ++ back) = bitsOfBytes front ++ bitsOfBytes back :=
  List.flatMap_append

@[simp] theorem length_bitsOfBytes (bytes : List UInt8) :
    (bitsOfBytes bytes).length = 8 * bytes.length := by
  induction bytes with
  | nil => rfl
  | cons b bytes ih =>
    rw [bitsOfBytes_cons, List.length_append, length_bitsOfByte, ih, List.length_cons]
    ring

/-- The number of a byte is that of its bits. -/
theorem natOfBits_bitsOfByte (b : UInt8) : natOfBits (bitsOfByte b) = b.toNat := by
  rw [bitsOfByte, natOfBits_bitsOfNat, Nat.mod_eq_of_lt b.toNat_lt]

private theorem foldl_bytes (bytes : List UInt8) (start : Nat) :
    bytes.foldl (fun n b => 256 * n + b.toNat) start =
      start * 2 ^ (8 * bytes.length) + natOfBits (bitsOfBytes bytes) := by
  induction bytes generalizing start with
  | nil => simp [natOfBits]
  | cons b bytes ih =>
    rw [List.foldl_cons, ih, bitsOfBytes_cons, natOfBits_append, natOfBits_bitsOfByte,
      length_bitsOfBytes, List.length_cons, Nat.mul_add, pow_add]
    ring

/-- The number of a byte string is that of its bits. -/
theorem natOfBytes_eq (bytes : List UInt8) : natOfBytes bytes = natOfBits (bitsOfBytes bytes) := by
  rw [natOfBytes, foldl_bytes]
  simp

theorem bitsOfByte_ofNat (n : Nat) : bitsOfByte (UInt8.ofNat n) = bitsOfNat 8 n := by
  rw [bitsOfByte, UInt8.toNat_ofNat']
  exact bitsOfNat_mod 8 n

/-- Big-endian conversion to bytes keeps the bits. -/
theorem bitsOfBytes_bytesOfNat (count n : Nat) :
    bitsOfBytes (bytesOfNat count n) = bitsOfNat (8 * count) n := by
  induction count with
  | zero => rfl
  | succ count ih =>
    rw [bytesOfNat, bitsOfBytes_cons, bitsOfByte_ofNat, ih, Nat.shiftRight_eq_div_pow,
      show 8 * (count + 1) = 8 + 8 * count by ring, bitsOfNat_add]

/-- Byte strings with the same bits are the same. -/
theorem bitsOfBytes_injective : Function.Injective bitsOfBytes := by
  intro bytes
  induction bytes with
  | nil =>
    intro bytes' same
    have lengths := congrArg List.length same
    simp only [length_bitsOfBytes, List.length_nil] at lengths
    exact (List.length_eq_zero_iff.mp (by omega)).symm
  | cons b bytes ih =>
    intro bytes' same
    cases bytes' with
    | nil => simpa using congrArg List.length same
    | cons b' bytes' =>
      rw [bitsOfBytes_cons, bitsOfBytes_cons] at same
      obtain ⟨first, others⟩ := List.append_inj same (by simp)
      have number := congrArg natOfBits first
      rw [natOfBits_bitsOfByte, natOfBits_bitsOfByte] at number
      rw [UInt8.toNat_inj.mp number, ih others]

/-- Whole bytes at the front are whole bytes of the bit string. -/
theorem bitsOfBytes_take (bytes : List UInt8) (count : Nat) :
    bitsOfBytes (bytes.take count) = (bitsOfBytes bytes).take (8 * count) := by
  induction bytes generalizing count with
  | nil => simp
  | cons b bytes ih =>
    cases count with
    | zero => simp
    | succ count =>
      rw [List.take_succ_cons, bitsOfBytes_cons, ih, bitsOfBytes_cons,
        show 8 * (count + 1) = (bitsOfByte b).length + 8 * count by
          rw [length_bitsOfByte]; ring,
        List.take_length_add_append]

/-- Whole bytes at the back are whole bytes of the bit string. -/
theorem bitsOfBytes_drop (bytes : List UInt8) (count : Nat) :
    bitsOfBytes (bytes.drop count) = (bitsOfBytes bytes).drop (8 * count) := by
  induction bytes generalizing count with
  | nil => simp
  | cons b bytes ih =>
    cases count with
    | zero => simp
    | succ count =>
      rw [List.drop_succ_cons, ih, bitsOfBytes_cons,
        show 8 * (count + 1) = (bitsOfByte b).length + 8 * count by
          rw [length_bitsOfByte]; ring,
        List.drop_length_add_append]

end Bytes

end BitLayout
