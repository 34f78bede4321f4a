import BitLayout.Number.Decimal
import BitLayout.Value.Basic

/-!
# The grammar of JSON

Which texts stand for which values, said without reading or printing them. Every relation is about
the front of a text, and its last argument is what is left behind it. The words for infinity and NaN
are values too, and of equal names in an object the last one counts.

A code point beyond the first plane may be written as the escapes of two surrogates. So two
surrogates in a row cannot be told from it; whether such escapes have to join is a parameter.

## Main definitions

* `Json.Blanks`, `Json.Characters`, `Json.Number`, `Json.Word`: the tokens
* `Json.Denotes`, with `Json.Items` and `Json.Members`: a value at the front of a text
* `Json.Document`: a whole text
-/

namespace BitLayout.Json

/-- A space, a tab, a line feed or a carriage return. -/
def IsBlank (c : CodePoint) : Prop :=
  c.toNat = 0x20 ∨ c.toNat = 0x09 ∨ c.toNat = 0x0A ∨ c.toNat = 0x0D

/-- Any number of blanks. -/
inductive Blanks : Text → Text → Prop
  | none {t : Text} : Blanks t t
  | more {c : CodePoint} {t rest : Text} (blank : IsBlank c) (others : Blanks t rest) :
    Blanks (c :: t) rest

section Strings

/-- A hexadecimal digit in either case. -/
inductive HexDigit : CodePoint → Nat → Prop
  | decimal {c : CodePoint} {d : Nat} (small : d < 10) (number : c.toNat = 0x30 + d) : HexDigit c d
  | lower {c : CodePoint} {d : Nat} (small : d < 6) (number : c.toNat = 0x61 + d) :
    HexDigit c (d + 10)
  | upper {c : CodePoint} {d : Nat} (small : d < 6) (number : c.toNat = 0x41 + d) :
    HexDigit c (d + 10)

/-- The escape of a number by four hexadecimal digits. -/
inductive NumberEscape : Text → Nat → Text → Prop
  | digits {a b c d : CodePoint} {i j k l : Nat} {rest : Text} (first : HexDigit a i)
    (second : HexDigit b j) (third : HexDigit c k) (fourth : HexDigit d l) :
    NumberEscape (.ofChar '\\' :: .ofChar 'u' :: a :: b :: c :: d :: rest)
      (16 * (16 * (16 * i + j) + k) + l) rest

/-- The letters of the other escapes, with the numbers of what they stand for. -/
def letters : List (Char × Nat) :=
  [('"', 0x22), ('\\', 0x5C), ('/', 0x2F), ('b', 0x08), ('f', 0x0C), ('n', 0x0A), ('r', 0x0D),
    ('t', 0x09)]

/-- The number of the first half of a pair of surrogates. -/
def IsHigh (n : Nat) : Prop := 0xD800 ≤ n ∧ n < 0xDC00

/-- The number of the second half of a pair of surrogates. -/
def IsLow (n : Nat) : Prop := 0xDC00 ≤ n ∧ n < 0xE000

/-- The rest of a string with the quote at its end, and what it spells. -/
inductive Characters (joining : Bool) : Text → Text → Text → Prop
  | close {rest : Text} : Characters joining (.ofChar '"' :: rest) [] rest
  | plain {c : CodePoint} {t s rest : Text} (visible : 0x20 ≤ c.toNat) (notQuote : c.toNat ≠ 0x22)
    (notBackslash : c.toNat ≠ 0x5C) (others : Characters joining t s rest) :
    Characters joining (c :: t) (c :: s) rest
  | letter {letter : Char} {n : Nat} {t s rest : Text} (listed : (letter, n) ∈ letters)
    (others : Characters joining t s rest) :
    Characters joining (.ofChar '\\' :: .ofChar letter :: t) (.ofNat n :: s) rest
  | number {n : Nat} {t t' s rest : Text} (escape : NumberEscape t n t')
    (alone : joining = true → IsHigh n → ∀ m t'', NumberEscape t' m t'' → ¬IsLow m)
    (others : Characters joining t' s rest) : Characters joining t (.ofNat n :: s) rest
  | pair {high low : Nat} {t t' t'' s rest : Text} (first : NumberEscape t high t')
    (second : NumberEscape t' low t'') (isHigh : IsHigh high) (isLow : IsLow low)
    (others : Characters joining t'' s rest) :
    Characters joining t (.ofNat (0x10000 + 0x400 * (high - 0xD800) + (low - 0xDC00)) :: s) rest

end Strings

section Numbers

/-- Decimal digits and their number. -/
inductive Numeral : Text → Nat → Prop
  | one {c : CodePoint} {d : Nat} (small : d < 10) (number : c.toNat = 0x30 + d) : Numeral [c] d
  | more {t : Text} {n : Nat} {c : CodePoint} {d : Nat} (front : Numeral t n) (small : d < 10)
    (number : c.toNat = 0x30 + d) : Numeral (t ++ [c]) (10 * n + d)

/-- A numeral without a zero at its front, unless it is zero. -/
structure Whole (t : Text) (n : Nat) : Prop where
  numeral : Numeral t n
  noZero : t.head? = some (.ofChar '0') → t = [.ofChar '0']

/-- A minus sign or none. -/
inductive Sign : Text → Bool → Prop
  | none : Sign [] false
  | minus : Sign [.ofChar '-'] true

/-- A point with digits after it, or nothing. -/
inductive Fraction : Text → Text → Prop
  | none : Fraction [] []
  | digits {t : Text} {n : Nat} (numeral : Numeral t n) : Fraction (.ofChar '.' :: t) t

/-- An exponent, or nothing. -/
inductive Exponent : Text → Int → Prop
  | none : Exponent [] 0
  | plain {letter : Char} {t : Text} {n : Nat} (isLetter : letter = 'e' ∨ letter = 'E')
    (numeral : Numeral t n) : Exponent (.ofChar letter :: t) n
  | plus {letter : Char} {t : Text} {n : Nat} (isLetter : letter = 'e' ∨ letter = 'E')
    (numeral : Numeral t n) : Exponent (.ofChar letter :: .ofChar '+' :: t) n
  | minus {letter : Char} {t : Text} {n : Nat} (isLetter : letter = 'e' ∨ letter = 'E')
    (numeral : Numeral t n) : Exponent (.ofChar letter :: .ofChar '-' :: t) (-n)

/-- A number: an integer, or the nearest double if there is a fraction or an exponent. -/
inductive Number : Text → Value → Prop
  | integer {sign whole : Text} {negative : Bool} {n : Nat} (signed : Sign sign negative)
    (digits : Whole whole n) :
    Number (sign ++ whole) (.int (if negative then -n else n))
  | decimal {sign whole point fraction power : Text} {negative : Bool} {k n : Nat} {e : Int}
    (signed : Sign sign negative) (digits : Whole whole k) (behind : Fraction point fraction)
    (scaled : Exponent power e) (something : point ≠ [] ∨ power ≠ [])
    (all : Numeral (whole ++ fraction) n) :
    Number (sign ++ (whole ++ (point ++ power)))
      (.float (.ofDecimal negative ⟨n, e - fraction.length⟩))

end Numbers

/-- The words that stand for values. -/
inductive Word : Text → Value → Prop
  | null : Word "null" .null
  | true : Word "true" (.bool true)
  | false : Word "false" (.bool false)
  | nan : Word "NaN" (.float Binary64.nan)
  | infinity : Word "Infinity" (.float (Binary64.infinity false))
  | negativeInfinity : Word "-Infinity" (.float (Binary64.infinity true))

mutual

/-- A value. -/
inductive Denotes (joining : Bool) : Text → Value → Text → Prop
  | word {t : Text} {value : Value} {rest : Text} (word : Word t value) :
    Denotes joining (t ++ rest) value rest
  | number {t : Text} {value : Value} {rest : Text} (number : Number t value) :
    Denotes joining (t ++ rest) value rest
  | string {t s rest : Text} (characters : Characters joining t s rest) :
    Denotes joining (.ofChar '"' :: t) (.text s) rest
  | emptyList {t rest : Text} (blanks : Blanks t (.ofChar ']' :: rest)) :
    Denotes joining (.ofChar '[' :: t) (.list []) rest
  | list {t t' rest : Text} {items : List Value} (blanks : Blanks t t')
    (inside : Items joining t' items rest) : Denotes joining (.ofChar '[' :: t) (.list items) rest
  | emptyRecord {t rest : Text} (blanks : Blanks t (.ofChar '\x7d' :: rest)) :
    Denotes joining (.ofChar '\x7b' :: t) (.dict []) rest
  | record {t t' rest : Text} {members : Entries} (blanks : Blanks t t')
    (inside : Members joining t' members rest) :
    Denotes joining (.ofChar '\x7b' :: t) (.dict (Entries.ofList members)) rest

/-- The items of a list from the first one to the bracket at the end. -/
inductive Items (joining : Bool) : Text → List Value → Text → Prop
  | last {t t' rest : Text} {item : Value} (first : Denotes joining t item t')
    (blanks : Blanks t' (.ofChar ']' :: rest)) : Items joining t [item] rest
  | more {t t' before after rest : Text} {item : Value} {items : List Value}
    (first : Denotes joining t item t') (blanks : Blanks t' (.ofChar ',' :: before))
    (between : Blanks before after) (others : Items joining after items rest) :
    Items joining t (item :: items) rest

/-- The members of an object from the first one to the brace at the end. -/
inductive Members (joining : Bool) : Text → Entries → Text → Prop
  | last {t t' rest name : Text} {value : Value} (first : Member joining t name value t')
    (blanks : Blanks t' (.ofChar '\x7d' :: rest)) :
    Members joining t [(.text name, value)] rest
  | more {t t' before after rest name : Text} {value : Value} {members : Entries}
    (first : Member joining t name value t') (blanks : Blanks t' (.ofChar ',' :: before))
    (between : Blanks before after) (others : Members joining after members rest) :
    Members joining t ((.text name, value) :: members) rest

/-- A member of an object: its name, a colon and its value. -/
inductive Member (joining : Bool) : Text → Text → Value → Text → Prop
  | mk {t t' before after rest name : Text} {value : Value}
    (named : Characters joining t name t') (blanks : Blanks t' (.ofChar ':' :: before))
    (between : Blanks before after) (content : Denotes joining after value rest) :
    Member joining (.ofChar '"' :: t) name value rest

end

end BitLayout.Json
