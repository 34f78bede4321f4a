import BitLayout.Proofs.Json.Grammar
import BitLayout.Proofs.Json.RoundTrip
import Mathlib.Data.List.Induction
import Mathlib.Data.List.TakeWhile

/-!
# Reading follows the grammar

What the reader makes of a document is what the document stands for, with escapes of surrogates that
have to join. The reader takes a value apart as the grammar does, so the fuel is what the induction
is on.

## Main results

* `Json.characters_of_readString`, `Json.number_of_readNumber`: the tokens
* `Json.denotes_of_readValue`: a value
* `Json.document_of_read`: a whole document
-/

namespace BitLayout

/-- A code point is known by its number. -/
theorem CodePoint.eq_of_toNat {c d : CodePoint} (same : c.toNat = d.toNat) : c = d := by
  cases c
  cases d
  cases same
  rfl

namespace Json

section Reading

variable {t rest : Text}

theorem isBlank_iff {c : CodePoint} : isBlank c = true ↔ IsBlank c := by
  simp [isBlank, IsBlank, or_assoc]

theorem blanks_skipBlanks (t : Text) : Blanks t (skipBlanks t) := by
  induction t with
  | nil => exact .none
  | cons c rest ih =>
    rw [skipBlanks, List.dropWhile_cons]
    split
    next blank => exact .more (isBlank_iff.mp blank) ih
    next => exact .none

theorem blanks_of_skipBlanks (skipped : skipBlanks t = rest) : Blanks t rest :=
  skipped ▸ blanks_skipBlanks t

section Strings

theorem hexDigit_of_hexValue? {c : CodePoint} {d : Nat} (value : c.hexValue? = some d) :
    HexDigit c d := by
  rw [CodePoint.hexValue?] at value
  simp only [Bool.and_eq_true, decide_eq_true_eq] at value
  split_ifs at value <;> cases value
  · exact .decimal (by omega) (by omega)
  · exact .lower (by omega) (by omega)
  · exact .upper (by omega) (by omega)

theorem HexDigit.hexValue? {c : CodePoint} {d : Nat} (digit : HexDigit c d) :
    c.hexValue? = some d := by
  rw [CodePoint.hexValue?]
  simp only [Bool.and_eq_true, decide_eq_true_eq]
  cases digit with
  | decimal small number =>
    rw [if_pos (by omega), number]
    exact congrArg some (by omega)
  | lower small number =>
    rw [if_neg (by omega), if_pos (by omega), number]
    exact congrArg some (by omega)
  | upper small number =>
    rw [if_neg (by omega), if_neg (by omega), if_pos (by omega), number]
    exact congrArg some (by omega)

theorem escape_of_hexNumber? {a b c d : CodePoint} {n : Nat} (number : hexNumber? a b c d = some n) :
    NumberEscape (.ofChar '\\' :: .ofChar 'u' :: a :: b :: c :: d :: rest) n rest := by
  simp only [hexNumber?, Option.bind_eq_bind, Option.bind_eq_some_iff, Option.some.injEq] at number
  obtain ⟨i, first, j, second, k, third, l, fourth, rfl⟩ := number
  exact .digits (hexDigit_of_hexValue? first) (hexDigit_of_hexValue? second)
    (hexDigit_of_hexValue? third) (hexDigit_of_hexValue? fourth)

/-- The digits of an escape have one number, which is found if something follows them. -/
theorem NumberEscape.splitHexNumber? {t' : Text} {n : Nat} (escape : NumberEscape t n t')
    (continues : t' ≠ []) :
    ∃ digits, t = .ofChar '\\' :: .ofChar 'u' :: digits ∧ hasFive digits = true ∧
      Json.splitHexNumber? digits = some (n, t') := by
  obtain ⟨next, more, rfl⟩ := List.exists_cons_of_ne_nil continues
  cases escape with
  | digits first second third fourth =>
    refine ⟨_, rfl, rfl, ?_⟩
    simp [Json.splitHexNumber?, hexNumber?, first.hexValue?, second.hexValue?, third.hexValue?,
      fourth.hexValue?]

theorem escape_of_splitHexNumber? {digits after : Text} {n : Nat}
    (split : splitHexNumber? digits = some (n, after)) :
    NumberEscape (.ofChar '\\' :: .ofChar 'u' :: digits) n after ∧ after = digits.drop 4 := by
  match digits with
  | [] | [_] | [_, _] | [_, _, _] | [_, _, _, _] => cases split
  | a :: b :: c :: d :: next :: more =>
    obtain ⟨_, number, same⟩ := Option.map_eq_some_iff.mp split
    cases same
    exact ⟨escape_of_hexNumber? number, rfl⟩

theorem escaped?_eq_some {c d : CodePoint} (escaped : escaped? c = some d) :
    ∃ letter n, (letter, n) ∈ letters ∧ c = .ofChar letter ∧ d = .ofNat n := by
  have known (letter : Char) (n : Nat) (listed : (letter, n) ∈ letters)
      (number : c.toNat = (CodePoint.ofChar letter).toNat) (meant : d = .ofNat n) :
      ∃ letter n, (letter, n) ∈ letters ∧ c = .ofChar letter ∧ d = .ofNat n :=
    ⟨letter, n, listed, CodePoint.eq_of_toNat number, meant⟩
  rw [escaped?] at escaped
  simp only [Bool.or_eq_true, decide_eq_true_eq] at escaped
  split_ifs at escaped with itself backspace formFeed lineFeed carriageReturn tab <;> cases escaped
  · rcases itself with (quote | backslash) | slash
    · exact known '"' 0x22 (by decide) quote (CodePoint.eq_of_toNat quote)
    · exact known '\\' 0x5C (by decide) backslash (CodePoint.eq_of_toNat backslash)
    · exact known '/' 0x2F (by decide) slash (CodePoint.eq_of_toNat slash)
  · exact known 'b' 0x08 (by decide) backspace rfl
  · exact known 'f' 0x0C (by decide) formFeed rfl
  · exact known 'n' 0x0A (by decide) lineFeed rfl
  · exact known 'r' 0x0D (by decide) carriageReturn rfl
  · exact known 't' 0x09 (by decide) tab rfl

theorem NumberEscape.small {n : Nat} (escape : NumberEscape t n rest) : n < 0x10000 := by
  have bound {c : CodePoint} {d : Nat} (digit : HexDigit c d) : d < 16 := by cases digit <;> omega
  cases escape with
  | digits first second third fourth =>
    have := bound first
    have := bound second
    have := bound third
    have := bound fourth
    omega

theorem isHighSurrogate_ofNat {n : Nat} (small : n < 0x10000) :
    (CodePoint.ofNat n).isHighSurrogate = true ↔ IsHigh n := by
  rw [CodePoint.isHighSurrogate, CodePoint.toNat_ofNat (by omega), Bool.and_eq_true,
    decide_eq_true_eq, decide_eq_true_eq, IsHigh]

theorem isLowSurrogate_ofNat {n : Nat} (small : n < 0x10000) :
    (CodePoint.ofNat n).isLowSurrogate = true ↔ IsLow n := by
  rw [CodePoint.isLowSurrogate, CodePoint.toNat_ofNat (by omega), Bool.and_eq_true,
    decide_eq_true_eq, decide_eq_true_eq, IsLow]

theorem NumberEscape.eq {t' : Text} {n : Nat} (escape : NumberEscape t n t') :
    ∃ a b c d, t = .ofChar '\\' :: .ofChar 'u' :: a :: b :: c :: d :: t' := by
  cases escape
  exact ⟨_, _, _, _, rfl⟩

/-- No string ends in an escape. -/
theorem NumberEscape.ne_nil {joining : Bool} {s t' : Text} {n : Nat} (escape : NumberEscape t n t')
    (string : Characters joining t s rest) : t' ≠ [] := by
  have unique {m : Nat} {t'' : Text} (other : NumberEscape t m t'') : t'' = t' := by
    cases escape
    cases other
    rfl
  have something {t s : Text} (string : Characters joining t s rest) : t ≠ [] := by
    cases string with
    | close | plain | letter => exact nofun
    | number escape | pair escape =>
      cases escape
      exact nofun
  cases string with
  | close => cases escape
  | plain _ _ notBackslash =>
    cases escape
    exact absurd rfl notBackslash
  | letter listed =>
    -- The letter of a number is none of the others.
    have noNumber : ∀ entry ∈ letters, CodePoint.ofChar entry.1 ≠ .ofChar 'u' := by decide
    obtain ⟨_, _, _, _, same⟩ := escape.eq
    exact absurd (List.cons.inj (List.cons.inj same).2).1 (noNumber _ listed)
  | number other _ others => exact unique other ▸ something others
  | pair other second =>
    rw [← unique other]
    cases second
    exact nofun

/-- Two escapes that a step joins. -/
theorem characters_of_join {t' t'' s : Text} {n m : Nat} (first : NumberEscape t n t')
    (second : NumberEscape t' m t'') (isHigh : (CodePoint.ofNat n).isHighSurrogate = true)
    (isLow : (CodePoint.ofNat m).isLowSurrogate = true) (others : Characters true t'' s rest) :
    Characters true t (joinSurrogates (.ofNat n) (.ofNat m) :: s) rest := by
  rw [joinSurrogates, CodePoint.toNat_ofNat (Nat.lt_trans first.small (by decide)),
    CodePoint.toNat_ofNat (Nat.lt_trans second.small (by decide))]
  exact .pair first second ((isHighSurrogate_ofNat first.small).mp isHigh)
    ((isLowSurrogate_ofNat second.small).mp isLow) others

/-- A step that reads an escape by its number follows the grammar. -/
theorem characters_of_unicodeStep {digits s : Text} {c : CodePoint} {extra : Nat}
    (step : unicodeStep digits = .char c extra)
    (others : Characters true (List.drop extra (.ofChar 'u' :: digits)) s rest) :
    Characters true (.ofChar '\\' :: .ofChar 'u' :: digits) (c :: s) rest := by
  match digits with
  | [] | [_] | [_, _] | [_, _, _] | [_, _, _, _] => cases step
  | a :: b :: d :: e :: next :: more =>
    rw [unicodeStep, splitHexNumber?] at step
    cases number : hexNumber? a b d e with
    | none =>
      rw [number] at step
      cases step
    | some n =>
      have escape : NumberEscape _ n (next :: more) := escape_of_hexNumber? number
      rw [number, Option.map_some] at step
      dsimp only at step
      -- Nothing that follows joins, or the step would have taken it.
      have single (same : StringStep.char (.ofNat n) 5 = .char c extra)
          (alone : IsHigh n → ∀ m t'', NumberEscape (next :: more) m t'' → t'' ≠ [] → ¬IsLow m) :
          Characters true (.ofChar '\\' :: .ofChar 'u' :: a :: b :: d :: e :: next :: more) (c :: s)
            rest := by
        cases same
        exact .number escape (fun _ isHigh m t'' low => alone isHigh m t'' low (low.ne_nil others))
          others
      split at step
      next backslash letter tail same =>
        cases same
        split_ifs at step with pair
        · simp only [Bool.and_eq_true, decide_eq_true_eq] at pair
          obtain ⟨⟨⟨isHigh, isBackslash⟩, isLetter⟩, -⟩ := pair
          split at step
          next => cases step
          next m after second =>
            split_ifs at step with isLow
            · obtain ⟨rfl, rfl⟩ := StringStep.char.inj step
              obtain ⟨low, same⟩ := escape_of_splitHexNumber? second
              obtain rfl : next = .ofChar '\\' := CodePoint.eq_of_toNat isBackslash
              obtain rfl : letter = .ofChar 'u' := CodePoint.eq_of_toNat isLetter
              exact characters_of_join escape low isHigh isLow (same ▸ others)
            · refine single step fun _ m' t'' low continues lowAgain => ?_
              obtain ⟨_, same, -, again⟩ := low.splitHexNumber? continues
              cases same
              cases second.symm.trans again
              exact isLow ((isLowSurrogate_ofNat low.small).mpr lowAgain)
        · refine single step fun isHigh m t'' low continues => absurd ?_ pair
          obtain ⟨_, same, five, -⟩ := low.splitHexNumber? continues
          cases same
          rw [(isHighSurrogate_ofNat escape.small).mpr isHigh, five]
          rfl
      next short =>
        refine single step fun _ m t'' low _ => ?_
        obtain ⟨_, _, _, _, same⟩ := low.eq
        exact absurd same (short _ _ _)

/-- A step that reads a code point follows the grammar. -/
theorem characters_of_stringStep {opening s : Text} {c d : CodePoint} {extra : Nat}
    (step : stringStep opening c t = .char d extra)
    (others : Characters true (t.drop extra) s rest) : Characters true (c :: t) (d :: s) rest := by
  rw [stringStep.eq_def] at step
  split_ifs at step with quote backslash control
  · obtain rfl : c = .ofChar '\\' := CodePoint.eq_of_toNat backslash
    cases t with
    | nil => cases step
    | cons letter digits =>
      dsimp only at step
      split_ifs at step with number
      · obtain rfl : letter = .ofChar 'u' := CodePoint.eq_of_toNat number
        exact characters_of_unicodeStep step others
      · split at step
        next known =>
          cases step
          obtain ⟨_, _, listed, rfl, rfl⟩ := escaped?_eq_some known
          exact .letter listed others
        next => cases step
  · cases step
    exact .plain (Nat.le_of_not_lt control) quote backslash others

/-- Only a quote ends a string. -/
theorem eq_of_stringStep_close {opening : Text} {c : CodePoint}
    (step : stringStep opening c t = .close) : c = .ofChar '"' := by
  -- An escaped quote belongs to the string and does not end it.
  have noEscape (digits : Text) : unicodeStep digits ≠ .close := by
    rw [unicodeStep]
    repeat' first | split | dsimp only
    all_goals
      intro same
      cases same
  rw [stringStep.eq_def] at step
  split_ifs at step with quote
  · exact CodePoint.eq_of_toNat quote
  · cases t with
    | nil => cases step
    | cons letter digits =>
      dsimp only at step
      split_ifs at step
      · exact absurd step (noEscape digits)
      · split at step <;> cases step

/-- What is read of a string follows the grammar, behind the code points that are skipped. -/
theorem characters_of_readString {opening s : Text} {skip : Nat}
    (read : readString opening skip t = .ok (s, rest)) :
    Characters true (t.drop skip) s rest := by
  -- An escape is read at its front, and the code points behind it are skipped one by one.
  induction t generalizing s skip with
  | nil => cases read
  | cons c t ih =>
    cases skip with
    | succ skip => exact ih read
    | zero =>
      rw [readString] at read
      dsimp only at read
      split at read
      next close =>
        cases read
        rw [List.drop_zero, eq_of_stringStep_close close]
        exact .close
      next d extra step =>
        obtain ⟨⟨s, _⟩, others, same⟩ := bind_eq_ok_iff.mp read
        cases same
        exact characters_of_stringStep step (ih others)
      next => cases read

end Strings

section Numbers

/-- A decimal digit and its number. -/
theorem exists_digit {c : CodePoint} (digit : c.isDigit = true) :
    ∃ d, d < 10 ∧ c.toNat = 0x30 + d := by
  rw [CodePoint.isDigit, Bool.and_eq_true, decide_eq_true_eq, decide_eq_true_eq] at digit
  exact ⟨c.toNat - 0x30, by omega, by omega⟩

theorem numeral_of_digits (digits : ∀ c ∈ t, c.isDigit = true) (something : t ≠ []) :
    Numeral t (Decimal.valueOfDigits t) := by
  -- A number grows at the end of its digits, so the induction is from there.
  induction t using List.reverseRecOn with
  | nil => exact absurd rfl something
  | append_singleton front c ih =>
    obtain ⟨front_digits, last⟩ := List.forall_mem_append.mp digits
    obtain ⟨d, small, number⟩ := exists_digit (last c List.mem_cons_self)
    have value : Decimal.valueOfDigits (front ++ [c]) = 10 * Decimal.valueOfDigits front + d := by
      rw [Decimal.valueOfDigits, List.foldl_append, List.foldl_cons, List.foldl_nil, number,
        Nat.add_sub_cancel_left]
      rfl
    rw [value]
    by_cases empty : front = []
    · subst empty
      simpa [Decimal.valueOfDigits] using Numeral.one small number
    · exact .more (ih front_digits empty) small number

theorem splitDigits_eq {digits : Text} (split : Decimal.splitDigits t = (digits, rest)) :
    t = digits ++ rest ∧ ∀ c ∈ digits, c.isDigit = true := by
  rw [Decimal.splitDigits, List.span_eq_takeWhile_dropWhile] at split
  cases split
  exact ⟨List.takeWhile_append_dropWhile.symm, fun c => List.mem_takeWhile_imp⟩

theorem splitWhole_eq {whole : Text} (split : splitWhole t = (whole, rest))
    (something : whole ≠ []) :
    t = whole ++ rest ∧ (∀ c ∈ whole, c.isDigit = true) ∧
      Whole whole (Decimal.valueOfDigits whole) := by
  cases t with
  | nil =>
    cases split
    exact absurd rfl something
  | cons c after =>
    rw [splitWhole] at split
    split_ifs at split with zero
    · cases split
      obtain rfl : c = .ofChar '0' := CodePoint.eq_of_toNat zero
      have digits : ∀ d ∈ [CodePoint.ofChar '0'], d.isDigit = true := by decide
      exact ⟨rfl, digits, numeral_of_digits digits something, fun _ => rfl⟩
    · obtain ⟨same, digits⟩ := splitDigits_eq split
      refine ⟨same, digits, numeral_of_digits digits something, fun first => ?_⟩
      obtain ⟨d, others, rfl⟩ := List.exists_cons_of_ne_nil something
      cases first
      cases same
      exact absurd rfl zero

theorem splitFraction_eq {fraction : Text} (split : splitFraction t = (fraction, rest)) :
    ∃ point, t = point ++ rest ∧ Fraction point fraction ∧
      (∀ c ∈ fraction, c.isDigit = true) ∧ (point = [] ↔ fraction = []) := by
  rw [splitFraction.eq_def] at split
  split at split
  next point digit others =>
    split_ifs at split with isPoint
    · rw [Bool.and_eq_true, decide_eq_true_eq] at isPoint
      obtain ⟨same, digits⟩ := splitDigits_eq split
      obtain rfl : point = .ofChar '.' := CodePoint.eq_of_toNat isPoint.1
      have something : fraction ≠ [] := by
        rintro rfl
        rw [Decimal.splitDigits, List.span_eq_takeWhile_dropWhile,
          List.takeWhile_cons_of_pos isPoint.2] at split
        cases split
      exact ⟨_, congrArg (List.cons _) same, .digits (numeral_of_digits digits something), digits,
        iff_of_false (List.cons_ne_nil _ _) something⟩
    · cases split
      exact ⟨[], rfl, .none, List.forall_mem_nil _, Iff.rfl⟩
  next =>
    cases split
    exact ⟨[], rfl, .none, List.forall_mem_nil _, Iff.rfl⟩

theorem splitSign_eq {negative : Bool} (split : Decimal.splitSign t = (negative, rest)) :
    (negative = false ∧ t = rest) ∨ (negative = false ∧ t = .ofChar '+' :: rest) ∨
      (negative = true ∧ t = .ofChar '-' :: rest) := by
  cases t with
  | nil =>
    cases split
    exact Or.inl ⟨rfl, rfl⟩
  | cons c after =>
    rw [Decimal.splitSign] at split
    split_ifs at split with minus plus <;> cases split
    · exact Or.inr (Or.inr ⟨rfl, congrArg (List.cons · _) minus⟩)
    · exact Or.inr (Or.inl ⟨rfl, congrArg (List.cons · _) plus⟩)
    · exact Or.inl ⟨rfl, rfl⟩

theorem splitExponent_eq {exponent? : Option Int} (split : splitExponent t = (exponent?, rest)) :
    ∃ power, t = power ++ rest ∧ Exponent power (exponent?.getD 0) ∧
      (power = [] ↔ exponent? = none) := by
  have without (same : (none, t) = (exponent?, rest)) : ∃ power, t = power ++ rest ∧
      Exponent power (exponent?.getD 0) ∧ (power = [] ↔ exponent? = none) := by
    cases same
    exact ⟨[], rfl, .none, fun _ => rfl, fun _ => rfl⟩
  cases t with
  | nil => exact without split
  | cons c after =>
    rw [splitExponent] at split
    have something {n : Int} {t : Text} : c :: t = [] ↔ some n = none :=
      iff_of_false (List.cons_ne_nil _ _) (Option.some_ne_none _)
    split_ifs at split with lettered
    · obtain ⟨letter, rfl, isLetter⟩ : ∃ letter, c = .ofChar letter ∧
          (letter = 'e' ∨ letter = 'E') := by
        rw [Bool.or_eq_true, decide_eq_true_eq, decide_eq_true_eq] at lettered
        rcases lettered with small | capital
        · exact ⟨'e', CodePoint.eq_of_toNat small, Or.inl rfl⟩
        · exact ⟨'E', CodePoint.eq_of_toNat capital, Or.inr rfl⟩
      generalize signed : Decimal.splitSign after = parts at split
      obtain ⟨negative, unsigned⟩ := parts
      dsimp only at split
      generalize spelled : Decimal.splitDigits unsigned = parts at split
      obtain ⟨digits, behind⟩ := parts
      dsimp only at split
      split_ifs at split with nothing negated
      -- A letter without digits behind it is no exponent: the number ends before it.
      · exact without split
      all_goals
        cases split
        obtain ⟨rfl, each⟩ := splitDigits_eq spelled
        have numeral := numeral_of_digits each fun empty => nothing (List.isEmpty_iff.mpr empty)
        rcases splitSign_eq signed with ⟨sign, rfl⟩ | ⟨sign, rfl⟩ | ⟨sign, rfl⟩
      · exact absurd (sign.symm.trans negated) Bool.false_ne_true
      · exact absurd (sign.symm.trans negated) Bool.false_ne_true
      · exact ⟨_, rfl, .minus isLetter numeral, something⟩
      · exact ⟨_, rfl, .plain isLetter numeral, something⟩
      · exact ⟨_, rfl, .plus isLetter numeral, something⟩
      · exact absurd sign negated
    · exact without split

/-- A number behind its sign follows the grammar. -/
theorem number_of_readUnsigned {negative : Bool} {start sign : Text} {value : Value}
    (read : readUnsigned negative start t = .ok (value, rest)) (signed : Sign sign negative) :
    ∃ number, t = number ++ rest ∧ Number (sign ++ number) value := by
  rw [readUnsigned] at read
  generalize splitW : splitWhole t = parts at read
  obtain ⟨whole, afterWhole⟩ := parts
  dsimp only at read
  by_cases nothing : whole.isEmpty = true
  · rw [if_pos nothing] at read
    cases read
  rw [if_neg nothing] at read
  generalize splitF : splitFraction afterWhole = parts at read
  obtain ⟨fraction, afterFraction⟩ := parts
  dsimp only at read
  generalize splitE : splitExponent afterFraction = parts at read
  obtain ⟨exponent?, behind⟩ := parts
  dsimp only at read
  obtain ⟨rfl, whole_digits, digits⟩ :=
    splitWhole_eq splitW fun empty => nothing (List.isEmpty_iff.mpr empty)
  obtain ⟨point, rfl, behindPoint, fraction_digits, hasPoint⟩ := splitFraction_eq splitF
  obtain ⟨power, rfl, scaled, hasPower⟩ := splitExponent_eq splitE
  -- Only what has neither a point nor a power of ten is an integer.
  by_cases integer : (fraction.isEmpty && exponent?.isNone) = true
  · rw [if_pos integer] at read
    rw [Bool.and_eq_true, List.isEmpty_iff, Option.isNone_iff_eq_none] at integer
    obtain rfl := hasPoint.mpr integer.1
    obtain rfl := hasPower.mpr integer.2
    by_cases tooMany : maxDigits < whole.length
    · rw [if_pos tooMany] at read
      cases read
    · rw [if_neg tooMany] at read
      obtain ⟨rfl, rfl⟩ := Prod.mk.inj (Except.ok.inj read)
      exact ⟨whole, rfl, .integer signed digits⟩
  · rw [if_neg integer] at read
    obtain ⟨rfl, rfl⟩ := Prod.mk.inj (Except.ok.inj read)
    have all : Numeral (whole ++ fraction) (Decimal.valueOfDigits (whole ++ fraction)) :=
      numeral_of_digits (List.forall_mem_append.mpr ⟨whole_digits, fraction_digits⟩)
        fun empty => nothing (List.isEmpty_iff.mpr (List.append_eq_nil_iff.mp empty).1)
    refine ⟨whole ++ (point ++ power), by simp only [List.append_assoc],
      .decimal signed digits behindPoint scaled ?_ all⟩
    rw [Bool.and_eq_true, List.isEmpty_iff, Option.isNone_iff_eq_none, ← hasPoint, ← hasPower]
      at integer
    exact not_and_or.mp integer

theorem number_of_readNumber {value : Value} (read : readNumber t = .ok (value, rest)) :
    ∃ number, t = number ++ rest ∧ Number number value := by
  cases t with
  | nil => cases read
  | cons c after =>
    rw [readNumber] at read
    split_ifs at read with minus
    · obtain rfl : c = .ofChar '-' := CodePoint.eq_of_toNat minus
      obtain ⟨number, rfl, denotes⟩ := number_of_readUnsigned read .minus
      exact ⟨_, rfl, denotes⟩
    · exact number_of_readUnsigned read .none

theorem word_of_mem : ∀ entry ∈ words, Word entry.1 entry.2 := by
  simp only [words, List.forall_mem_cons]
  exact ⟨.null, .true, .false, .nan, .infinity, .negativeInfinity, List.forall_mem_nil _⟩

theorem eq_of_dropLead? {lead : Text} (dropped : Text.dropLead? lead t = some rest) :
    t = lead ++ rest := by
  induction lead generalizing t with
  | nil => exact Option.some.inj dropped
  | cons a lead ih =>
    cases t with
    | nil => cases dropped
    | cons b t =>
      rw [Text.dropLead?] at dropped
      split_ifs at dropped with same
      rw [ih dropped, same, List.cons_append]

theorem denotes_of_readScalar {value : Value} (read : readScalar t = .ok (value, rest)) :
    Denotes true t value rest := by
  rw [readScalar] at read
  split at read
  next found =>
    cases read
    obtain ⟨entry, listed, dropped⟩ := List.exists_of_findSome?_eq_some found
    obtain ⟨_, dropped, same⟩ := Option.map_eq_some_iff.mp dropped
    cases same
    rw [eq_of_dropLead? dropped]
    exact .word (word_of_mem entry listed)
  next =>
    obtain ⟨number, rfl, denotes⟩ := number_of_readNumber read
    exact .number denotes

end Numbers

section Values

/-- What is read behind the brackets of a list or of a record follows the grammar, because what is
read of their parts does. -/
theorem denotes_of_readValue_succ {fuel : Nat} {value : Value}
    (ofItems : ∀ {t rest items}, readItems fuel t = .ok (items, rest) → Items true t items rest)
    (ofEntries : ∀ {t rest entries}, readEntries fuel t = .ok (entries, rest) →
      Members true t entries rest)
    (read : readValue (fuel + 1) t = .ok (value, rest)) : Denotes true t value rest := by
  cases t with
  | nil => cases read
  | cons c behind =>
    rw [readValue] at read
    split_ifs at read with quote bracket brace
    · obtain ⟨⟨content, _⟩, string, same⟩ := bind_eq_ok_iff.mp read
      cases same
      rw [CodePoint.eq_of_toNat (d := .ofChar '"') quote]
      exact .string (characters_of_readString string)
    · rw [CodePoint.eq_of_toNat (d := .ofChar '[') bracket]
      split at read
      next d after blanks =>
        split_ifs at read with closing
        · cases read
          obtain rfl : d = .ofChar ']' := CodePoint.eq_of_toNat closing
          exact .emptyList (blanks_of_skipBlanks blanks)
        · obtain ⟨⟨items, _⟩, inside, same⟩ := bind_eq_ok_iff.mp read
          cases same
          exact .list (blanks_of_skipBlanks blanks) (ofItems inside)
      next => cases read
    · rw [CodePoint.eq_of_toNat (d := .ofChar '\x7b') brace]
      split at read
      next d after blanks =>
        split_ifs at read with closing
        · cases read
          obtain rfl : d = .ofChar '\x7d' := CodePoint.eq_of_toNat closing
          exact .emptyRecord (blanks_of_skipBlanks blanks)
        · obtain ⟨⟨entries, _⟩, inside, same⟩ := bind_eq_ok_iff.mp read
          cases same
          exact .record (blanks_of_skipBlanks blanks) (ofEntries inside)
      next => cases read
    · exact denotes_of_readScalar read

mutual

/-- What is read of a value follows the grammar. -/
theorem denotes_of_readValue {fuel : Nat} {t rest : Text} {value : Value}
    (read : readValue fuel t = .ok (value, rest)) : Denotes true t value rest := by
  match fuel with
  | 0 => cases read
  | fuel + 1 => exact denotes_of_readValue_succ items_of_readItems members_of_readEntries read

theorem items_of_readItems {fuel : Nat} {t rest : Text} {items : List Value}
    (read : readItems fuel t = .ok (items, rest)) : Items true t items rest := by
  match fuel with
  | 0 => cases read
  | fuel + 1 =>
    rw [readItems] at read
    obtain ⟨⟨item, behind⟩, first, read⟩ := bind_eq_ok_iff.mp read
    dsimp only at read
    split at read
    next d after blanks =>
      split_ifs at read with closing comma
      · cases read
        obtain rfl : d = .ofChar ']' := CodePoint.eq_of_toNat closing
        exact .last (denotes_of_readValue first) (blanks_of_skipBlanks blanks)
      · obtain ⟨⟨others, _⟩, more, same⟩ := bind_eq_ok_iff.mp read
        cases same
        obtain rfl : d = .ofChar ',' := CodePoint.eq_of_toNat comma
        exact .more (denotes_of_readValue first) (blanks_of_skipBlanks blanks)
          (blanks_skipBlanks after) (items_of_readItems more)
    next => cases read

theorem members_of_readEntries {fuel : Nat} {t rest : Text} {entries : Entries}
    (read : readEntries fuel t = .ok (entries, rest)) : Members true t entries rest := by
  match fuel with
  | 0 => cases read
  | fuel + 1 =>
    cases t with
    | nil => cases read
    | cons c afterQuote =>
      rw [readEntries] at read
      split_ifs at read with other
      obtain rfl : c = .ofChar '"' := CodePoint.eq_of_toNat (not_not.mp other)
      obtain ⟨⟨name, afterName⟩, named, read⟩ := bind_eq_ok_iff.mp read
      dsimp only at read
      split at read
      next c afterColon beforeColon =>
        split_ifs at read with noColon
        obtain rfl : c = .ofChar ':' := CodePoint.eq_of_toNat (not_not.mp noColon)
        obtain ⟨⟨value, behind⟩, content, read⟩ := bind_eq_ok_iff.mp read
        have first : Member true (.ofChar '"' :: afterQuote) name value behind :=
          .mk (characters_of_readString named) (blanks_of_skipBlanks beforeColon)
            (blanks_skipBlanks afterColon) (denotes_of_readValue content)
        dsimp only at read
        split at read
        next d after blanks =>
          split_ifs at read with closing comma
          · cases read
            obtain rfl : d = .ofChar '\x7d' := CodePoint.eq_of_toNat closing
            exact .last first (blanks_of_skipBlanks blanks)
          · obtain ⟨⟨others, _⟩, more, same⟩ := bind_eq_ok_iff.mp read
            cases same
            obtain rfl : d = .ofChar ',' := CodePoint.eq_of_toNat comma
            exact .more first (blanks_of_skipBlanks blanks) (blanks_skipBlanks after)
              (members_of_readEntries more)
        next => cases read
      next => cases read

end

end Values

end Reading

end Json

end BitLayout
