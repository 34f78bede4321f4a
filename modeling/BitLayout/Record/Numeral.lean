import BitLayout.Number.Decimal
import BitLayout.Text.Wording

/-!
# Numerals in records

A text may stand in a record for the integer that it spells in decimal. White space around it, a
plus sign, zeros at the front, single underscores between digits and a fraction of zeros do not
matter. Zeros may stand even before a minus sign, but after it none may be left. A numeral with very
many digits is refused.

## Main definitions

* `Numeral.clean?`: the numeral without what does not matter
* `Numeral.strict?`: the integer that a clean numeral spells
* `Numeral.read`: the integer that a text spells
-/

namespace BitLayout.Numeral

/-- Why a text spells no integer. -/
inductive Fault where
  | malformed
  /-- More digits than are read. -/
  | tooLong
deriving DecidableEq

/-- White space around a numeral. -/
def isBlank (c : CodePoint) : Bool :=
  let n := c.toNat
  n = 0x20 || 0x09 ≤ n && n ≤ 0x0D || n = 0x85 || n = 0xA0 || n = 0x1680 ||
    0x2000 ≤ n && n ≤ 0x200A || n = 0x2028 || n = 0x2029 || n = 0x202F || n = 0x205F || n = 0x3000

/-- The text without white space at its ends. -/
def trim (t : Text) : Text := (((t.dropWhile isBlank).reverse).dropWhile isBlank).reverse

/-- The digit zero. -/
def zero : CodePoint := .ofChar '0'

/-- The minus sign. -/
def minus : CodePoint := .ofChar '-'

/-- The decimal point. -/
def point : CodePoint := .ofChar '.'

/-- The mark that may stand between digits. -/
def underscore : CodePoint := .ofChar '_'

/-- Whether a code point may start a numeral from which nothing is dropped at its front. -/
def isLead (c : CodePoint) : Bool := c = minus || c.isDigit && c ≠ zero

/-- The sign at the front of a text, kept if it is a minus sign, and what follows it. A minus sign
may not follow a plus sign. -/
def splitSign? (t : Text) : Option (Text × Text) :=
  match t with
  | [] => some ([], [])
  | sign :: rest =>
    if sign = minus then some ([minus], rest)
    else if sign = .ofChar '+' then
      if rest.head? = some minus then none else some ([], rest)
    else some ([], t)

/-- The text after zeros and underscores, of which `last` came just before. It is kept if nothing or
a fraction follows. -/
def afterZeros? (last : CodePoint) : Text → Option Text
  | [] => some [last]
  | c :: rest =>
    if c = zero || c = underscore then afterZeros? c rest
    else if isLead c then some (c :: rest)
    else if c = point then some (last :: c :: rest)
    else none

/-- The text without zeros at its front. -/
def dropZeros? : Text → Option Text
  | [] => none
  | c :: rest =>
    if c = zero then afterZeros? c rest
    else if isLead c then some (c :: rest)
    else none

/-- The text without a fraction that consists of zeros, one at least. -/
def dropZeroFraction (t : Text) : Text :=
  match Text.splitFirst? point t with
  | some (whole, fraction) =>
    if !fraction.isEmpty && fraction.all (· = zero) then whole else t
  | none => t

/-- Whether one underscore stands right after another. -/
def hasDoubleUnderscore : Text → Bool
  | a :: b :: rest => a = underscore && b = underscore || hasDoubleUnderscore (b :: rest)
  | _ => false

/-- The text without underscores, which may stand singly and not at the ends. -/
def dropUnderscores? (t : Text) : Option Text :=
  if t.head? = some underscore || t.getLast? = some underscore || hasDoubleUnderscore t then none
  else some (t.filter (· ≠ underscore))

/-- The numeral without what does not matter. -/
def clean? (t : Text) : Option Text := do
  let (sign, rest) ← splitSign? (trim t)
  let rest ← dropZeros? rest
  let digits ← dropUnderscores? (dropZeroFraction rest)
  some (sign ++ digits)

/-- Whether a text is a zero by itself or digits that start with another one. -/
def isStrictNat (t : Text) : Bool :=
  t.all CodePoint.isDigit && (t.length = 1 || t.head?.any (· ≠ zero))

/-- The integer that digits after an optional minus sign spell, if there is no zero too many and if
the numeral is not too long. -/
def strict? (t : Text) : Option Int :=
  let (negative, digits) :=
    match t with
    | sign :: rest => if sign = minus then (true, rest) else (false, t)
    | [] => (false, [])
  if isStrictNat digits && t.length ≤ maxDigits then
    let n : Int := Decimal.valueOfDigits digits
    some (if negative then -n else n)
  else none

/-- The length of a minus sign, which may be missing, with the digits after it; nothing for a
numeral that starts with zero. -/
def plainLength (t : Text) : Nat :=
  let (sign, rest) := if t.head? = some minus then (1, t.drop 1) else (0, t)
  if rest.head?.any isLead then sign + (rest.takeWhile CodePoint.isDigit).length else 0

/-- The integer that a text spells. A text that starts with too many digits is told apart from one
that turns out to have too many. -/
def read (t : Text) : Except Fault Int :=
  if maxDigits < plainLength t then .error .tooLong
  else match clean? t >>= strict? with
    | some n => .ok n
    | none => .error .malformed

end BitLayout.Numeral
