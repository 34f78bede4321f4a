/-!
# Code points and text

A text is a list of Unicode code points. Surrogates are allowed, because field names, text values
and command arguments may hold one that has no partner; only an encoding refuses them.

## Main definitions

* `CodePoint`: a number below `0x110000`
* `Text`: a list of code points, with `Text.ofString` for fixed wording
* `Text.ofNat`, `Text.ofInt`: decimal numerals
* `Text.hex`: lower-case hexadecimal with a least number of digits
* `Text.precedes`: order by code point
-/

namespace BitLayout

/-- A Unicode code point, surrogates included. -/
structure CodePoint where
  /-- The number of the code point. -/
  toNat : Nat
  isLt : toNat < 0x110000
deriving DecidableEq

namespace CodePoint

/-- The code point of a character. -/
def ofChar (c : Char) : CodePoint :=
  ⟨c.toNat, by
    have bound := c.valid
    have word := c.val.toNat_lt
    rcases c with ⟨value, valid⟩
    simp only [Char.toNat]
    rcases valid with low | high <;> omega⟩

/-- The code point with a given number, if there is one. -/
def ofNat? (n : Nat) : Option CodePoint :=
  if h : n < 0x110000 then some ⟨n, h⟩ else none

/-- The code point with a given number, wrapping around above the last one. -/
def ofNat (n : Nat) : CodePoint := ⟨n % 0x110000, Nat.mod_lt _ (by decide)⟩

/-- The code point of a byte. -/
def ofByte (b : UInt8) : CodePoint :=
  ⟨b.toNat, by have := b.toNat_lt; omega⟩

/-- The character with this number; a surrogate has none and becomes the replacement character. -/
def toChar (c : CodePoint) : Char :=
  if c.toNat.isValidChar then Char.ofNat c.toNat else Char.ofNat 0xFFFD

/-- The first half of a surrogate pair. -/
def isHighSurrogate (c : CodePoint) : Bool := 0xD800 ≤ c.toNat && c.toNat < 0xDC00

/-- The second half of a surrogate pair. -/
def isLowSurrogate (c : CodePoint) : Bool := 0xDC00 ≤ c.toNat && c.toNat < 0xE000

/-- A code point that stands for half of a pair and not for a character. -/
def isSurrogate (c : CodePoint) : Bool := 0xD800 ≤ c.toNat && c.toNat < 0xE000

/-- A digit from `0` to `9`. -/
def isDigit (c : CodePoint) : Bool := 0x30 ≤ c.toNat && c.toNat ≤ 0x39

/-- The value of a hexadecimal digit in either case. -/
def hexValue? (c : CodePoint) : Option Nat :=
  let n := c.toNat
  if 0x30 ≤ n && n ≤ 0x39 then some (n - 0x30)
  else if 0x61 ≤ n && n ≤ 0x66 then some (n - 0x61 + 10)
  else if 0x41 ≤ n && n ≤ 0x46 then some (n - 0x41 + 10)
  else none

end CodePoint

/-- A list of code points. -/
abbrev Text := List CodePoint

namespace Text

/-- Fixed wording as a text. -/
def ofString (s : String) : Text := s.toList.map CodePoint.ofChar

instance : Coe String Text := ⟨ofString⟩

/-- The text as a string; a surrogate shows as the replacement character. -/
def toString (t : Text) : String := String.ofList (t.map CodePoint.toChar)

/-- A decimal numeral. -/
def ofNat (n : Nat) : Text := (Nat.toDigits 10 n).map CodePoint.ofChar

/-- A decimal numeral with a minus sign for a negative number. -/
def ofInt : Int → Text
  | .ofNat n => ofNat n
  | .negSucc n => "-" ++ ofNat (n + 1)

/-- A truth value as a capitalised word. -/
def ofBool (b : Bool) : Text := if b then "True" else "False"

/-- A lower-case hexadecimal numeral with at least `width` digits. -/
def hex (width n : Nat) : Text :=
  let digits := (Nat.toDigits 16 n).map CodePoint.ofChar
  List.replicate (width - digits.length) (CodePoint.ofChar '0') ++ digits

/-- Two hexadecimal digits for each byte. -/
def hexOfBytes (bytes : List UInt8) : Text := bytes.flatMap fun b => hex 2 b.toNat

/-- The texts one after another with a separator between neighbours. -/
def joined (separator : Text) : List Text → Text
  | [] => []
  | [t] => t
  | t :: rest => t ++ separator ++ joined separator rest

/-- The text `n` times over. -/
def repeated (n : Nat) (t : Text) : Text := (List.replicate n t).flatten

/-- Order by code point, a text before its own continuations. -/
def precedes : Text → Text → Bool
  | [], _ => true
  | _ :: _, [] => false
  | a :: s, b :: t => a.toNat < b.toNat || a.toNat == b.toNat && precedes s t

/-- The text without `lead` if it starts with it. -/
def dropLead? (lead : Text) (t : Text) : Option Text :=
  match lead, t with
  | [], t => some t
  | _ :: _, [] => none
  | a :: lead, b :: t => if a = b then dropLead? lead t else none

/-- Whether the text starts with `lead`. -/
def startsWith (t lead : Text) : Bool := (dropLead? lead t).isSome

/-- Whether the text ends with `tail`. -/
def endsWith (t tail : Text) : Bool := startsWith t.reverse tail.reverse

/-- The parts of the text before and after the first code point `c`. -/
def splitFirst? (c : CodePoint) : Text → Option (Text × Text)
  | [] => none
  | a :: t => if a = c then some ([], t) else (splitFirst? c t).map fun (s, u) => (a :: s, u)

/-- The parts of the text before and after the last code point `c`. -/
def splitLast? (c : CodePoint) (t : Text) : Option (Text × Text) :=
  (splitFirst? c t.reverse).map fun (s, u) => (u.reverse, s.reverse)

/-- The pieces of the text between occurrences of `c`. -/
def pieces (c : CodePoint) : Text → List Text
  | [] => [[]]
  | a :: t =>
    match pieces c t with
    | [] => [[]]
    | piece :: rest => if a = c then [] :: piece :: rest else (a :: piece) :: rest

end Text

/-- The escape of a code point by its number: two, four or eight hexadecimal digits. -/
def CodePoint.escaped (c : CodePoint) : Text :=
  if c.toNat < 0x100 then "\\x" ++ Text.hex 2 c.toNat
  else if c.toNat < 0x10000 then "\\u" ++ Text.hex 4 c.toNat
  else "\\U" ++ Text.hex 8 c.toNat

end BitLayout
