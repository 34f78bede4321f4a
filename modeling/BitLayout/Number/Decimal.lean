import BitLayout.Number.Binary64

/-!
# Decimal text of doubles

The shortest decimal that reads back as a given double, its written form, and reading a decimal
numeral as the nearest double.

## Main definitions

* `Decimal`: digits and a power of ten
* `Binary64.shortest`: the fewest digits that read back, and of those the nearest
* `Binary64.render`: positional from `0.0001` to below `10 ^ 16`, otherwise with an exponent
* `Decimal.read?`: sign, digits, fraction and exponent
* `Binary64.ofDecimal`: the nearest double to a decimal
-/

namespace BitLayout

/-- The number `digits * 10 ^ exponent`. -/
structure Decimal where
  digits : Nat
  exponent : Int

namespace Decimal

/-- The same number without zeros at the end of its digits; `steps` bounds their number. -/
def trimmed : Nat → Decimal → Decimal
  | 0, d => d
  | steps + 1, d =>
    if d.digits ≠ 0 && d.digits % 10 = 0 then trimmed steps ⟨d.digits / 10, d.exponent + 1⟩ else d

end Decimal

namespace Binary64

/-- The least `shift` at which `numerator * 10 ^ shift` reaches `denominator`, searched upwards. -/
def leastShift (numerator denominator : Nat) : Nat → Nat → Nat
  | 0, shift => shift
  | steps + 1, shift =>
    if denominator ≤ numerator * Nat.pow 10 shift then shift
    else leastShift numerator denominator steps (shift + 1)

/-- The power of ten of the leading digit of `numerator / denominator`. -/
def leadingPower (numerator denominator : Nat) : Int :=
  if denominator ≤ numerator then ((Nat.toDigits 10 (numerator / denominator)).length : Int) - 1
  else -(leastShift numerator denominator 400 1 : Nat)

/-- An interval around a double: the numbers from `low / unit` to `high / unit`, the ends included
or not, round to `middle / unit`. -/
structure RoundingInterval where
  low : Nat
  middle : Nat
  high : Nat
  unit : Nat
  closed : Bool

/-- The numbers that round to `significand * 2 ^ exponent`. Below a power of two the neighbour is
at half the distance, except at the bottom of the range. -/
def roundingInterval (significand : Nat) (exponent : Int) : RoundingInterval :=
  let below := if significand = 1 <<< 52 && exponent ≠ -1074 then 1 else 2
  let places := (exponent - 2).toNat
  { low := (4 * significand - below) <<< places
    middle := (4 * significand) <<< places
    high := (4 * significand + 2) <<< places
    unit := 1 <<< (2 - exponent).toNat
    closed := significand % 2 = 0 }

/-- Whether a decimal lies in the interval. -/
def RoundingInterval.holds (i : RoundingInterval) (d : Decimal) : Bool :=
  let scaled := d.digits * Nat.pow 10 d.exponent.toNat * i.unit
  let shift := Nat.pow 10 (-d.exponent).toNat
  if i.closed then i.low * shift ≤ scaled && scaled ≤ i.high * shift
  else i.low * shift < scaled && scaled < i.high * shift

/-- The decimal with last place `10 ^ place` next to the middle of the interval that lies inside,
the nearer one if both do, an even one if they are equally near. -/
def RoundingInterval.nearest? (i : RoundingInterval) (place : Int) : Option Decimal :=
  let numerator := i.middle * Nat.pow 10 (-place).toNat
  let denominator := i.unit * Nat.pow 10 place.toNat
  let down : Decimal := ⟨numerator / denominator, place⟩
  let up : Decimal := ⟨numerator / denominator + 1, place⟩
  let near := roundHalfEven numerator denominator
  let first := if near = down.digits then down else up
  let second := if near = down.digits then up else down
  if i.holds first then some first
  else if i.holds second then some second
  else none

/-- The first hit on the grids with `count`, `count + 1`, … digits. -/
def RoundingInterval.fewest (i : RoundingInterval) (power : Int) : Nat → Nat → Decimal
  | 0, count => ⟨roundHalfEven (i.middle * Nat.pow 10 (count - 1 - power : Int).toNat)
      (i.unit * Nat.pow 10 (power - (count - 1) : Int).toNat), power - (count - 1)⟩
  | steps + 1, count =>
    match i.nearest? (power - (count - 1)) with
    | some d => d
    | none => fewest i power steps (count + 1)

/-- The decimal with the fewest digits that reads back as `significand * 2 ^ exponent`. -/
def shortest (significand : Nat) (exponent : Int) : Decimal :=
  let i := roundingInterval significand exponent
  ((i.fewest (leadingPower i.middle i.unit) 17 1)).trimmed 40

/-- A sign and at least two digits. -/
def renderExponent (n : Int) : Text :=
  let digits := Text.ofNat n.natAbs
  (if n < 0 then ("-" : Text) else ("+" : Text)) ++
    (if digits.length < 2 then "0" ++ digits else digits)

/-- A positive decimal: positional while the point falls less than four places before the digits
and at most sixteen places after the first one, otherwise with an exponent. -/
def renderDecimal (d : Decimal) : Text :=
  let digits := Text.ofNat d.digits
  let point : Int := digits.length + d.exponent
  if -4 < point && point ≤ 16 then
    if point ≤ 0 then "0." ++ Text.repeated (-point).toNat "0" ++ digits
    else if digits.length ≤ point.toNat then
      digits ++ Text.repeated (point.toNat - digits.length) "0" ++ ".0"
    else digits.take point.toNat ++ "." ++ digits.drop point.toNat
  else
    digits.take 1 ++ (if digits.length = 1 then ([] : Text) else "." ++ digits.drop 1) ++ "e" ++
      renderExponent (point - 1)

/-- The written form of a double. -/
def render (x : Binary64) : Text :=
  match x.shape with
  | .nan => "nan"
  | .infinite negative => if negative then "-inf" else "inf"
  | .finite negative significand exponent =>
    (if negative then ("-" : Text) else []) ++
      if significand = 0 then ("0.0" : Text) else renderDecimal (shortest significand exponent)

/-- The double nearest to a decimal. Beyond four hundred places the answer is infinite or zero
whatever the digits are. -/
def ofDecimal (negative : Bool) (d : Decimal) : Binary64 :=
  let size : Int := (Nat.toDigits 10 d.digits).length + d.exponent
  if d.digits = 0 then ofParts negative 0
  else if 400 < size then infinity negative
  else if size < -400 then ofParts negative 0
  else ofRatio negative (d.digits * Nat.pow 10 d.exponent.toNat) (Nat.pow 10 (-d.exponent).toNat)

end Binary64

namespace Decimal

/-- The value of a run of decimal digits. -/
def valueOfDigits (digits : Text) : Nat := digits.foldl (fun n c => 10 * n + (c.toNat - 0x30)) 0

/-- The digits at the front of a text and what follows them. -/
def splitDigits (t : Text) : Text × Text := t.span CodePoint.isDigit

/-- A minus or plus sign at the front of a text, if there is one. -/
def splitSign (t : Text) : Bool × Text :=
  match t with
  | [] => (false, [])
  | c :: rest =>
    if c = CodePoint.ofChar '-' then (true, rest)
    else if c = CodePoint.ofChar '+' then (false, rest)
    else (false, t)

/-- The exponent part of a numeral, empty or `e` with a sign and digits, to the end of the text. -/
def readExponent? (t : Text) : Option Int :=
  match t with
  | [] => some 0
  | c :: rest =>
    if c = CodePoint.ofChar 'e' || c = CodePoint.ofChar 'E' then
      let (negative, rest) := splitSign rest
      let (digits, rest) := splitDigits rest
      if digits.isEmpty || !rest.isEmpty then none
      else some (if negative then -(valueOfDigits digits : Int) else valueOfDigits digits)
    else none

/-- A numeral with an optional fraction and exponent, without its sign. -/
def read? (t : Text) : Option Decimal :=
  let (whole, rest) := splitDigits t
  let (fraction, rest) :=
    match rest with
    | c :: more => if c = CodePoint.ofChar '.' then splitDigits more else ([], rest)
    | [] => ([], [])
  if whole.isEmpty && fraction.isEmpty then none
  else (readExponent? rest).map fun exponent =>
    ⟨valueOfDigits (whole ++ fraction), exponent - fraction.length⟩

end Decimal

/-- A double from its written form, the words for infinity and NaN included. -/
def Binary64.read? (t : Text) : Option Binary64 :=
  let (negative, rest) := Decimal.splitSign t
  if rest = ("inf" : Text) then some (Binary64.infinity negative)
  else if rest = ("nan" : Text) then some Binary64.nan
  else (Decimal.read? rest).map (Binary64.ofDecimal negative)

end BitLayout
