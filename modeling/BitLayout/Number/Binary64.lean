import BitLayout.Text.Basic

/-!
# Double-precision numbers

A binary floating-point number of 64 bits, held as its bit pattern so that equality is equality of
representations and every operation is exact integer arithmetic.

## Main definitions

* `Binary64`, `Binary64.Shape`: the bit pattern and what it stands for
* `Binary64.ofRatio`: the nearest double to a quotient of natural numbers, ties to even
* `Binary64.toInt?`: the integer that a double equals
* `Binary64.equals`: numerical equality, in which the two zeros agree and a NaN equals nothing
-/

namespace BitLayout

/-- The bit pattern of a double. -/
structure Binary64 where
  /-- Sign, eleven bits of exponent and fifty-two of fraction. -/
  bits : UInt64
deriving DecidableEq

namespace Binary64

/-- What a bit pattern stands for. -/
inductive Shape where
  | nan
  | infinite (negative : Bool)
  /-- The number `significand * 2 ^ exponent` with a sign. -/
  | finite (negative : Bool) (significand : Nat) (exponent : Int)

/-- Whether the sign bit is set. -/
def isNegative (x : Binary64) : Bool := x.bits.toNat >>> 63 = 1

/-- The number that a bit pattern stands for. -/
def shape (x : Binary64) : Shape :=
  let n := x.bits.toNat
  let fraction : Nat := n % (1 <<< 52)
  let field : Nat := (n >>> 52) % 2048
  if field = 2047 then
    if fraction = 0 then .infinite x.isNegative else .nan
  else if field = 0 then .finite x.isNegative fraction (-1074)
  else .finite x.isNegative ((1 <<< 52) + fraction) ((field : Int) - 1075)

/-- The pattern with the given sign and remaining 63 bits. -/
def ofParts (negative : Bool) (rest : Nat) : Binary64 :=
  ⟨UInt64.ofNat ((if negative then 1 <<< 63 else 0) + rest)⟩

/-- The quiet NaN. -/
def nan : Binary64 := ofParts false ((2047 <<< 52) + (1 <<< 51))

/-- Positive or negative infinity. -/
def infinity (negative : Bool) : Binary64 := ofParts negative (2047 <<< 52)

/-- The integer nearest to `numerator / denominator`, a half going to the even neighbour. -/
def roundHalfEven (numerator denominator : Nat) : Nat :=
  let quotient := numerator / denominator
  let twice := 2 * (numerator % denominator)
  if twice < denominator then quotient
  else if denominator < twice then quotient + 1
  else quotient + quotient % 2

/-- The exponent of the last place of a double near `numerator / denominator`: the quotient has 53
bits before this place, or fewer at the bottom of the range. -/
def placeOf (numerator denominator : Nat) : Int :=
  let guess : Int := (numerator.log2 : Int) - denominator.log2 - 53
  let reached : Bool :=
    if 0 ≤ guess + 53 then decide (denominator <<< (guess + 53).toNat ≤ numerator)
    else decide (denominator ≤ numerator <<< (-(guess + 53)).toNat)
  max (if reached then guess + 1 else guess) (-1074)

/-- The double nearest to `numerator / denominator`, ties to even, infinite past the range. -/
def ofRatio (negative : Bool) (numerator denominator : Nat) : Binary64 :=
  if numerator = 0 then ofParts negative 0
  else
    let place := placeOf numerator denominator
    let rounded :=
      if 0 ≤ place then roundHalfEven numerator (denominator <<< place.toNat)
      else roundHalfEven (numerator <<< (-place).toNat) denominator
    -- A carry into bit 53 is the next binade, so adding the parts is right for it too.
    let rest :=
      if rounded < 1 <<< 52 then rounded
      else (((place + 1074).toNat + 1) <<< 52) + (rounded - (1 <<< 52))
    if 2047 <<< 52 ≤ rest then infinity negative else ofParts negative rest

/-- The integer that a double equals, if it equals one. -/
def toInt? (x : Binary64) : Option Int :=
  match x.shape with
  | .nan => none
  | .infinite _ => none
  | .finite negative significand exponent =>
    let sign : Int := if negative then -1 else 1
    if 0 ≤ exponent then some (sign * (significand <<< exponent.toNat : Nat))
    else
      let divisor := 1 <<< (-exponent).toNat
      if significand % divisor = 0 then some (sign * (significand / divisor : Nat)) else none

/-- Whether a double has a value and that value is finite. -/
def isFinite (x : Binary64) : Bool :=
  match x.shape with
  | .finite .. => true
  | _ => false

/-- Numerical equality: the two zeros agree and a NaN equals nothing. -/
def equals (x y : Binary64) : Bool :=
  match x.shape, y.shape with
  | .nan, _ => false
  | _, .nan => false
  | .finite _ 0 _, .finite _ 0 _ => true
  | _, _ => x.bits = y.bits

end Binary64

end BitLayout
