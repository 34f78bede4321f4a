import BitLayout.Number.Decimal
import BitLayout.Text.Wording
import Mathlib.Algebra.Group.Nat.Defs
import Mathlib.Tactic.SplitIfs

/-!
# Numerals read back

A digit has the value that it was written for, so a numeral spells its number. A number with
more digits than the limit has no numeral, and nothing that would show it can be written.

## Main results

* `Text.hex_two`, `Text.hex_four`: the hexadecimal digits of a byte and of a number of two bytes
* `CodePoint.hexValue?_digitChar`: what a hexadecimal digit is worth
* `Text.isDigit_of_mem_ofNat`, `Text.exists_head_ofNat`, `Decimal.valueOfDigits_ofNat`: a decimal
  numeral is made of digits, and they spell its number
* `Text.ofInt_injective`: different integers have different numerals
* `Wording.fitsDigits_iff`, `Wording.isWritable_append`: which words can be written
* `Wording.text?_append_eq_some_iff`, `Wording.eq_of_ofInt`: what words say if they can be written
-/

namespace BitLayout

section Hexadecimal

theorem CodePoint.hexValue?_digitChar {d : Nat} (small : d < 16) :
    (CodePoint.ofChar d.digitChar).hexValue? = some d := by
  decide +revert

/-- The last digit of a padded numeral is that of the remainder. -/
theorem Text.hex_succ {width n : Nat} (some_digit : 0 < width) :
    Text.hex (width + 1) n = Text.hex width (n / 16) ++ [CodePoint.ofChar (n % 16).digitChar] := by
  obtain ⟨width, rfl⟩ : ∃ k, width = k + 1 := ⟨width - 1, by omega⟩
  rw [hex, hex]
  by_cases small : n < 16
  · -- The zero in front of the only digit is padding in one numeral and a digit in the other.
    have zero : (Nat.digitChar 0) = '0' := rfl
    rw [Nat.toDigits_of_lt_base small, Nat.div_eq_of_lt small, Nat.mod_eq_of_lt small,
      Nat.toDigits_of_lt_base (by decide), zero]
    simp [← List.replicate_succ']
  · rw [Nat.toDigits_of_base_le (by decide) (by omega)]
    simp

theorem Text.hex_one {n : Nat} (small : n < 16) :
    Text.hex 1 n = [CodePoint.ofChar n.digitChar] := by
  rw [hex, Nat.toDigits_of_lt_base small]
  rfl

theorem Text.hex_two {n : Nat} (small : n < 0x100) :
    Text.hex 2 n =
      [CodePoint.ofChar (n / 16).digitChar, CodePoint.ofChar (n % 16).digitChar] := by
  rw [hex_succ (by decide), hex_one (by omega)]
  rfl

theorem Text.hex_four {n : Nat} (small : n < 0x10000) :
    Text.hex 4 n =
      [CodePoint.ofChar (n / 4096).digitChar, CodePoint.ofChar (n / 256 % 16).digitChar,
        CodePoint.ofChar (n / 16 % 16).digitChar, CodePoint.ofChar (n % 16).digitChar] := by
  have thousands : n / 16 / 16 / 16 = n / 4096 := by omega
  have hundreds : n / 16 / 16 % 16 = n / 256 % 16 := by omega
  rw [hex_succ (by decide), hex_succ (by decide), hex_two (by omega), thousands, hundreds]
  rfl

theorem Text.length_hex_four {n : Nat} (small : n < 0x10000) : (Text.hex 4 n).length = 4 := by
  rw [hex_four small]
  rfl

end Hexadecimal

section Decimal

theorem Text.isDigit_of_mem_ofNat {n : Nat} {c : CodePoint} (member : c ∈ Text.ofNat n) :
    c.isDigit = true := by
  obtain ⟨digit, listed, rfl⟩ := List.mem_map.mp member
  have decimal := Nat.isDigit_of_mem_toDigits (by decide) (by decide) listed
  rw [Char.isDigit, Bool.and_eq_true, decide_eq_true_eq, decide_eq_true_eq] at decimal
  rw [CodePoint.isDigit, Bool.and_eq_true, decide_eq_true_eq, decide_eq_true_eq]
  exact ⟨UInt32.le_iff_toNat_le.mp decimal.1, UInt32.le_iff_toNat_le.mp decimal.2⟩

theorem Text.ofNat_ne_nil {n : Nat} : Text.ofNat n ≠ [] := by
  have positive : 0 < (Nat.toDigits 10 n).length := Nat.length_toDigits_pos
  rw [ofNat, Ne, List.map_eq_nil_iff]
  rintro empty
  rw [empty] at positive
  cases positive

/-- The first digit of a numeral. -/
theorem Text.exists_digit_ofNat (n : Nat) :
    ∃ c rest, Text.ofNat n = c :: rest ∧ c.isDigit = true ∧ 0x30 ≤ c.toNat ∧ c.toNat ≤ 0x39 := by
  obtain ⟨c, rest, numeral⟩ := List.exists_cons_of_ne_nil (ofNat_ne_nil (n := n))
  have digit := isDigit_of_mem_ofNat (numeral ▸ List.mem_cons_self)
  have bounds := digit
  rw [CodePoint.isDigit, Bool.and_eq_true, decide_eq_true_eq, decide_eq_true_eq] at bounds
  exact ⟨c, rest, numeral, digit, bounds⟩

/-- Only the numeral of zero starts with a zero. -/
theorem Text.exists_head_ofNat {n : Nat} (positive : n ≠ 0) :
    ∃ c rest, Text.ofNat n = c :: rest ∧ c.toNat ≠ 0x30 := by
  have digit : ∀ d < 10, d ≠ 0 → (CodePoint.ofChar d.digitChar).toNat ≠ 0x30 := by decide
  induction n using Nat.strongRecOn with
  | ind n ih =>
    by_cases small : n < 10
    · refine ⟨_, [], ?_, digit n small positive⟩
      rw [ofNat, Nat.toDigits_of_lt_base small]
      rfl
    · obtain ⟨c, rest, numeral, first⟩ := ih (n / 10) (by omega) (by omega)
      refine ⟨c, rest ++ [CodePoint.ofChar (n % 10).digitChar], ?_, first⟩
      rw [ofNat] at numeral
      rw [ofNat, Nat.toDigits_of_base_le (by decide) (by omega), List.map_append, numeral]
      rfl

theorem Decimal.valueOfDigits_ofNat {n : Nat} : Decimal.valueOfDigits (Text.ofNat n) = n := by
  have fold : ∀ (digits : List Char) (start : Nat),
      (digits.map CodePoint.ofChar).foldl (fun n c => 10 * n + (c.toNat - 0x30)) start =
        Nat.ofDigitChars 10 digits start := by
    intro digits start
    rw [List.foldl_map]
    rfl
  rw [valueOfDigits, Text.ofNat, fold]
  exact Nat.ofDigitChars_toDigits (by decide) (by decide)

theorem Text.ofNat_injective {m n : Nat} (same : Text.ofNat m = Text.ofNat n) : m = n := by
  rw [← Decimal.valueOfDigits_ofNat (n := m), same, Decimal.valueOfDigits_ofNat]

/-- No natural number has a sign. -/
theorem Text.ofNat_ne_sign {n : Nat} {t : Text} : Text.ofNat n ≠ CodePoint.ofChar '-' :: t := by
  intro same
  have member : CodePoint.ofChar '-' ∈ Text.ofNat n := same ▸ List.mem_cons_self
  exact absurd (isDigit_of_mem_ofNat member) (by decide)

theorem Text.digit_or_sign_of_mem_ofInt {n : Int} {c : CodePoint} (member : c ∈ Text.ofInt n) :
    c.isDigit = true ∨ c = CodePoint.ofChar '-' := by
  cases n with
  | ofNat n => exact Or.inl (isDigit_of_mem_ofNat member)
  | negSucc n =>
    rcases List.mem_cons.mp member with sign | member
    · exact Or.inr sign
    · exact Or.inl (isDigit_of_mem_ofNat member)

theorem Text.ofInt_injective {m n : Int} (same : Text.ofInt m = Text.ofInt n) : m = n := by
  cases m with
  | ofNat m =>
    cases n with
    | ofNat n => exact congrArg Int.ofNat (ofNat_injective same)
    | negSucc n => exact absurd same ofNat_ne_sign
  | negSucc m =>
    cases n with
    | ofNat n => exact absurd same.symm ofNat_ne_sign
    | negSucc n =>
      have numerals : Text.ofNat (m + 1) = Text.ofNat (n + 1) := List.cons.inj same |>.2
      exact congrArg Int.negSucc (Nat.succ.inj (ofNat_injective numerals))

end Decimal

section Limit

variable {first second : Wording} {t : Text}

/-- A number of more digits than the limit has no numeral, and any other number has one. -/
theorem Wording.fitsDigits_iff {digits n : Nat} (some_digit : 0 < digits) :
    fitsDigits digits n = true ↔ n < 10 ^ digits := by
  induction digits generalizing n with
  | zero => cases some_digit
  | succ digits ih =>
    rw [fitsDigits, Bool.or_eq_true, decide_eq_true_eq]
    rcases Nat.eq_zero_or_pos digits with rfl | more
    · simp [fitsDigits]
    · rw [ih more, Nat.div_lt_iff_lt_mul (by decide), ← Nat.pow_succ]
      have ten : 10 ≤ 10 ^ (digits + 1) := Nat.le_self_pow (by omega) 10
      omega

/-- A number has a numeral exactly if it is not too long. -/
theorem Wording.isWritable_ofNat_iff {n : Nat} :
    (ofNat n).isWritable = true ↔ n < 10 ^ maxDigits := by
  rw [isWritable, ofNat, ← fitsDigits_iff (by decide)]
  split_ifs with fits <;> simp [fits]

/-- Words can be written if all their parts can. -/
theorem Wording.isWritable_append (first second : Wording) :
    (first ++ second).isWritable = (first.isWritable && second.isWritable) := by
  obtain ⟨first⟩ := first
  obtain ⟨second⟩ := second
  cases first <;> cases second <;> rfl

theorem Wording.text?_append_eq_some_iff : (first ++ second).text? = some t ↔
    ∃ s u, first.text? = some s ∧ second.text? = some u ∧ s ++ u = t := by
  obtain ⟨first⟩ := first
  obtain ⟨second⟩ := second
  cases first with
  | none => exact ⟨nofun, fun ⟨_, _, nothing, _⟩ => nomatch nothing⟩
  | some s =>
    cases second with
    | none => exact ⟨nofun, fun ⟨_, _, _, nothing, _⟩ => nomatch nothing⟩
    | some u =>
      constructor
      · intro same
        exact ⟨s, u, rfl, rfl, Option.some.inj same⟩
      · rintro ⟨_, _, same, same', rfl⟩
        cases same
        cases same'
        rfl

theorem Wording.isEmpty_iff : first.isEmpty = true ↔ first.text? = some [] := by
  obtain ⟨_ | _ | _⟩ := first <;> simp [isEmpty]

theorem Wording.eq_of_ofNat {n : Nat} (written : (ofNat n).text? = some t) : t = Text.ofNat n := by
  rw [ofNat] at written
  dsimp only at written
  split_ifs at written
  exact (Option.some.inj written).symm

theorem Wording.eq_of_ofInt {n : Int} (written : (ofInt n).text? = some t) : t = Text.ofInt n := by
  cases n with
  | ofNat n => exact eq_of_ofNat written
  | negSucc n =>
    rw [ofInt] at written
    obtain ⟨_, numeral, sign, digits, rfl⟩ := text?_append_eq_some_iff.mp written
    rw [eq_of_ofNat digits]
    cases sign
    rfl

end Limit

end BitLayout
