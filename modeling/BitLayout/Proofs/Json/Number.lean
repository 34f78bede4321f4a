import BitLayout.Json.Reader
import BitLayout.Proofs.Json.Printer
import Mathlib.Data.List.TakeDrop

/-!
# Words and numbers in JSON

A printed integer is not taken for a word, and it is read back if what follows it cannot belong to
the number: no digit, no point and no exponent.

## Main definitions

* `Json.EndsNumber`: what may follow a number

## Main results

* `Json.readUnsigned_ofNat`, `Json.readNumber_ofInt`
* `Json.readScalar_ofInt`
-/

namespace BitLayout

theorem Text.dropLead?_of_ne {a b : CodePoint} {lead t : Text} (different : a ≠ b) :
    Text.dropLead? (a :: lead) (b :: t) = none := by
  rw [dropLead?, if_neg different]

namespace Json

/-- A text that does not go on with a number. -/
def EndsNumber (rest : Text) : Prop :=
  ∀ c, rest.head? = some c →
    c.isDigit = false ∧ c.toNat ≠ 0x2E ∧ c.toNat ≠ 0x65 ∧ c.toNat ≠ 0x45

variable {rest : Text}

theorem splitDigits_append {digits : Text} (each : ∀ c ∈ digits, c.isDigit = true)
    (ends : EndsNumber rest) : Decimal.splitDigits (digits ++ rest) = (digits, rest) := by
  have none : rest.takeWhile CodePoint.isDigit = [] ∧ rest.dropWhile CodePoint.isDigit = rest := by
    cases rest with
    | nil => exact ⟨rfl, rfl⟩
    | cons c rest =>
      have other := (ends c rfl).1
      exact ⟨List.takeWhile_cons_of_neg (by simp [other]),
        List.dropWhile_cons_of_neg (by simp [other])⟩
  rw [Decimal.splitDigits, List.span_eq_takeWhile_dropWhile,
    List.takeWhile_append_of_pos each, List.dropWhile_append_of_pos each, none.1, none.2,
    List.append_nil]

theorem splitFraction_of_ends (ends : EndsNumber rest) : splitFraction rest = ([], rest) := by
  match rest with
  | [] => rfl
  | [_] => rfl
  | point :: digit :: rest =>
    have noPoint := (ends point rfl).2.1
    rw [splitFraction, if_neg (by simp [noPoint])]

theorem splitExponent_of_ends (ends : EndsNumber rest) : splitExponent rest = (none, rest) := by
  cases rest with
  | nil => rfl
  | cons letter rest =>
    have noLetter := (ends letter rfl).2.2
    rw [splitExponent, if_neg (by simp [noLetter])]

/-- The whole part of a number is the numeral that was printed. -/
theorem splitWhole_ofNat {n : Nat} (ends : EndsNumber rest) :
    splitWhole (Text.ofNat n ++ rest) = (Text.ofNat n, rest) := by
  have digits := splitDigits_append (fun c => Text.isDigit_of_mem_ofNat (n := n)) ends
  by_cases zero : n = 0
  · subst zero
    rfl
  · obtain ⟨c, others, numeral, notZero⟩ := Text.exists_head_ofNat zero
    rw [numeral] at digits ⊢
    rw [List.cons_append, splitWhole, if_neg notZero]
    exact digits

theorem readUnsigned_ofNat {n : Nat} (within : (Text.ofNat n).length ≤ maxDigits)
    (ends : EndsNumber rest) (negative : Bool) (start : Text) :
    readUnsigned negative start (Text.ofNat n ++ rest) =
      .ok (.int (if negative then -n else n), rest) := by
  have something : (Text.ofNat n).isEmpty = false := by
    rw [List.isEmpty_eq_false_iff]
    exact Text.ofNat_ne_nil
  rw [readUnsigned, splitWhole_ofNat ends]
  dsimp only
  rw [something, splitFraction_of_ends ends]
  dsimp only
  rw [splitExponent_of_ends ends, Decimal.valueOfDigits_ofNat]
  exact if_neg (Nat.not_lt_of_le within)

theorem readNumber_ofInt {n : Int} (within : (Text.ofNat n.natAbs).length ≤ maxDigits)
    (ends : EndsNumber rest) : readNumber (Text.ofInt n ++ rest) = .ok (.int n, rest) := by
  cases n with
  | ofNat n =>
    obtain ⟨c, others, numeral, -, bounds⟩ := Text.exists_digit_ofNat n
    have read := readUnsigned_ofNat (n := n) within ends false (Text.ofNat n ++ rest)
    rw [Text.ofInt]
    rw [numeral] at read ⊢
    rw [List.cons_append, readNumber, if_neg (by omega)]
    exact read
  | negSucc n => exact readUnsigned_ofNat within ends true _

/-- No word has a digit in front or behind its first character. -/
theorem words_start : ∀ entry ∈ words, ∃ a b lead, Text.ofString entry.1 = a :: b :: lead ∧
    a.isDigit = false ∧ b.isDigit = false := by
  simp only [words, List.forall_mem_cons]
  refine ⟨?_, ?_, ?_, ?_, ?_, ?_, nofun⟩ <;> exact ⟨_, _, _, rfl, rfl, rfl⟩

theorem dropLead?_word_ofInt {n : Int} {entry : String × Value} (listed : entry ∈ words) :
    Text.dropLead? entry.1 (Text.ofInt n ++ rest) = none := by
  have different {a c : CodePoint} (letter : a.isDigit = false) (digit : c.isDigit = true) :
      a ≠ c := by
    rintro rfl
    rw [letter] at digit
    cases digit
  obtain ⟨a, b, lead, word, first, second⟩ := words_start entry listed
  rw [word]
  cases n with
  | ofNat n =>
    obtain ⟨c, others, spelled, digit, -⟩ := Text.exists_digit_ofNat n
    rw [Text.ofInt, spelled]
    exact Text.dropLead?_of_ne (different first digit)
  | negSucc n =>
    obtain ⟨c, others, spelled, digit, -⟩ := Text.exists_digit_ofNat (n + 1)
    have sign : Text.ofInt (.negSucc n) ++ rest = CodePoint.ofChar '-' :: c :: (others ++ rest) := by
      rw [Text.ofInt, spelled]
      rfl
    rw [sign, Text.dropLead?]
    split_ifs
    · exact Text.dropLead?_of_ne (different second digit)
    · rfl

/-- No word is read where an integer was printed. -/
theorem readScalar_ofInt {n : Int} (within : (Text.ofNat n.natAbs).length ≤ maxDigits)
    (ends : EndsNumber rest) : readScalar (Text.ofInt n ++ rest) = .ok (.int n, rest) := by
  rw [readScalar, List.findSome?_eq_none_iff.mpr]
  · exact readNumber_ofInt within ends
  · intro entry listed
    dsimp only
    rw [dropLead?_word_ofInt listed, Option.map_none]

end Json

end BitLayout
