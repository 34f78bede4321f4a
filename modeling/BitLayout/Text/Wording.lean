import BitLayout.Text.Basic

/-!
# Wordings

The words of a message. An integer with very many digits has no numeral, and a message that would
show one has no words: what is said instead is that the numeral is too long.

## Main definitions

* `maxDigits`: the longest numeral of an integer that is read or written
* `Wording`, with `Wording.ofInt` and `Wording.ofNat` for the numerals in a message
* `Wording.shown`: the words, or what is said instead of them
-/

namespace BitLayout

/-- The longest numeral of an integer that is read or written. -/
def maxDigits : Nat := 4300

/-- What is said of a numeral that is too long; `detail` tells more about it. -/
def tooManyDigits (detail : Text) : Text :=
  "Exceeds the limit (" ++ Text.ofNat maxDigits ++ " digits) for integer string conversion" ++
    detail ++ "; use sys.set_int_max_str_digits() to increase the limit"

/-- The words of a message, unless a numeral in it is too long. -/
structure Wording where
  text? : Option Text
deriving DecidableEq

namespace Wording

/-- Words without a numeral that might be too long. -/
def ofText (t : Text) : Wording := ⟨some t⟩

instance : Coe Text Wording := ⟨ofText⟩

instance : Coe String Wording := ⟨fun s => ofText s⟩

/-- Words one after another. -/
def append (first second : Wording) : Wording :=
  match first.text?, second.text? with
  | some s, some t => ofText (s ++ t)
  | _, _ => ⟨none⟩

instance : Append Wording := ⟨append⟩

/-- Whether the numeral of a number has at most so many digits. -/
def fitsDigits : Nat → Nat → Bool
  | 0, _ => false
  | digits + 1, n => n < 10 || fitsDigits digits (n / 10)

/-- The numeral of a number. -/
def ofNat (n : Nat) : Wording := ⟨if fitsDigits maxDigits n then some (Text.ofNat n) else none⟩

/-- The numeral of an integer. -/
def ofInt : Int → Wording
  | .ofNat n => ofNat n
  | .negSucc n => "-" ++ ofNat (n + 1)

/-- The words one after another with a separator between neighbours. -/
def joined (separator : Text) : List Wording → Wording
  | [] => ofText []
  | [w] => w
  | w :: rest => w ++ separator ++ joined separator rest

/-- Whether there are no words at all. -/
def isEmpty (w : Wording) : Bool := w.text?.any List.isEmpty

/-- Whether every numeral could be written. -/
def isWritable (w : Wording) : Bool := w.text?.isSome

/-- The words, or what is said instead of them. -/
def shown (w : Wording) : Text := w.text?.getD (tooManyDigits [])

end Wording

end BitLayout
