import BitLayout.Json.Printer
import BitLayout.Json.Reader
import BitLayout.Proofs.Text.Lossless
import BitLayout.Proofs.Text.Numeral
import BitLayout.Proofs.Text.Surrogates

/-!
# Strings in JSON

What is printed for a code point is one step of the reader, which comes to that code point and skips
the rest of its escape. A surrogate is left out here: printed next to another one it would be read
as half of a pair.

## Main results

* `Json.stringStep_printChar`: one code point
* `Json.readString_printString`: a whole string with its closing quote
-/

namespace BitLayout

theorem CodePoint.ofNat_toNat {c : CodePoint} : CodePoint.ofNat c.toNat = c := by
  obtain ⟨n, bound⟩ := c
  simp [CodePoint.ofNat, Nat.mod_eq_of_lt bound]

namespace Json

/-- Code points that belong to the escape before are skipped. -/
theorem readString_skip {opening escape rest : Text} :
    readString opening escape.length (escape ++ rest) = readString opening 0 rest := by
  induction escape with
  | nil => rfl
  | cons c escape ih => exact ih

section Escapes

theorem hexNumber?_digitChar {n : Nat} (small : n < 0x10000) :
    hexNumber? (CodePoint.ofChar (n / 4096).digitChar) (CodePoint.ofChar (n / 256 % 16).digitChar)
      (CodePoint.ofChar (n / 16 % 16).digitChar) (CodePoint.ofChar (n % 16).digitChar) =
        some n := by
  rw [hexNumber?, CodePoint.hexValue?_digitChar (by omega),
    CodePoint.hexValue?_digitChar (by omega), CodePoint.hexValue?_digitChar (by omega),
    CodePoint.hexValue?_digitChar (by omega)]
  refine congrArg some ?_
  omega

/-- Four digits spell their number if anything follows them. -/
theorem splitHexNumber?_hex {n : Nat} (small : n < 0x10000) {next : CodePoint} {rest : Text} :
    splitHexNumber? (Text.hex 4 n ++ next :: rest) = some (n, next :: rest) := by
  rw [Text.hex_four small]
  dsimp only [List.cons_append, List.nil_append, splitHexNumber?]
  rw [hexNumber?_digitChar small]
  rfl

end Escapes

section Step

variable {c next : CodePoint} {opening rest : Text}

/-- The escape of a code point by its number, unless it is the first half of a pair. -/
theorem unicodeStep_hex (character : c.isSurrogate = false) (small : c.toNat < 0x10000) :
    unicodeStep (Text.hex 4 c.toNat ++ next :: rest) = .char c 5 := by
  have notHigh : c.isHighSurrogate = false := by
    rw [CodePoint.isSurrogate, Bool.and_eq_false_iff, decide_eq_false_iff_not,
      decide_eq_false_iff_not] at character
    rw [CodePoint.isHighSurrogate, Bool.and_eq_false_iff, decide_eq_false_iff_not,
      decide_eq_false_iff_not]
    omega
  rw [unicodeStep, splitHexNumber?_hex small]
  dsimp only
  rw [CodePoint.ofNat_toNat, notHigh]
  cases rest <;> rfl

/-- The escapes of both halves of a pair. -/
theorem unicodeStep_hex_pair {high low : Nat} (first : 0xD800 ≤ high ∧ high < 0xDC00)
    (second : 0xDC00 ≤ low ∧ low < 0xE000) :
    unicodeStep (Text.hex 4 high ++ (unicodeEscape low ++ next :: rest)) =
      .char (joinSurrogates (.ofNat high) (.ofNat low)) 11 := by
  have escape : unicodeEscape low ++ next :: rest =
      CodePoint.ofChar '\\' :: CodePoint.ofChar 'u' :: (Text.hex 4 low ++ next :: rest) := rfl
  have five : hasFive (Text.hex 4 low ++ next :: rest) = true := by
    rw [Text.hex_four (by omega)]
    rfl
  have isHigh : (CodePoint.ofNat high).isHighSurrogate = true := by
    rw [CodePoint.isHighSurrogate, CodePoint.toNat_ofNat (by omega), Bool.and_eq_true,
      decide_eq_true_eq, decide_eq_true_eq]
    exact first
  have isLow : (CodePoint.ofNat low).isLowSurrogate = true := by
    rw [CodePoint.isLowSurrogate, CodePoint.toNat_ofNat (by omega), Bool.and_eq_true,
      decide_eq_true_eq, decide_eq_true_eq]
    exact second
  rw [escape, unicodeStep, splitHexNumber?_hex (by omega)]
  dsimp only
  rw [isHigh, five, splitHexNumber?_hex (by omega)]
  dsimp only
  rw [isLow]
  rfl

/-- A code point beyond the first plane is the pair of its halves. -/
theorem joinSurrogates_halves {beyond : Nat} (number : c.toNat = 0x10000 + beyond) :
    joinSurrogates (.ofNat (0xD800 + beyond / 0x400)) (.ofNat (0xDC00 + beyond % 0x400)) = c := by
  have bound := c.isLt
  have sum : 0x10000 + 0x400 * (0xD800 + beyond / 0x400 - 0xD800) +
      (0xDC00 + beyond % 0x400 - 0xDC00) = c.toNat := by
    omega
  rw [joinSurrogates, CodePoint.toNat_ofNat (by omega), CodePoint.toNat_ofNat (by omega), sum,
    CodePoint.ofNat_toNat]

/-- A letter after the backslash stands for the code point that it was printed for. -/
theorem stringStep_letter {letter : CodePoint} (escaped : escaped? letter = some c)
    (notNumber : letter.toNat ≠ 0x75) :
    stringStep opening (.ofChar '\\') (letter :: rest) = .char c 1 := by
  have notQuote : (CodePoint.ofChar '\\').toNat ≠ 0x22 := by decide
  have backslash : (CodePoint.ofChar '\\').toNat = 0x5C := by decide
  rw [stringStep, if_neg notQuote, if_pos backslash, if_neg notNumber, escaped]

/-- A number after the backslash is read by the step for numbers. -/
theorem stringStep_number {digits : Text} :
    stringStep opening (.ofChar '\\') (.ofChar 'u' :: digits) = unicodeStep digits := rfl

/-- The step of the reader at what is printed for a code point that is no surrogate. -/
theorem stringStep_printChar (opening : Text) (next : CodePoint) (rest : Text)
    (character : c.isSurrogate = false) :
    ∃ first escape, printChar c = first :: escape ∧
      stringStep opening first (escape ++ next :: rest) = .char c escape.length := by
  obtain ⟨n, bound⟩ := c
  rw [printChar]
  split_ifs with quote backslash lineFeed carriageReturn tab formFeed backspace plain small
  · subst quote
    exact ⟨_, _, rfl, stringStep_letter rfl (by decide)⟩
  · subst backslash
    exact ⟨_, _, rfl, stringStep_letter rfl (by decide)⟩
  · subst lineFeed
    exact ⟨_, _, rfl, stringStep_letter rfl (by decide)⟩
  · subst carriageReturn
    exact ⟨_, _, rfl, stringStep_letter rfl (by decide)⟩
  · subst tab
    exact ⟨_, _, rfl, stringStep_letter rfl (by decide)⟩
  · subst formFeed
    exact ⟨_, _, rfl, stringStep_letter rfl (by decide)⟩
  · subst backspace
    exact ⟨_, _, rfl, stringStep_letter rfl (by decide)⟩
  · rw [Bool.and_eq_true, decide_eq_true_eq, decide_eq_true_eq] at plain
    refine ⟨_, _, rfl, ?_⟩
    rw [List.nil_append, stringStep, if_neg quote, if_neg backslash, if_neg (by omega)]
    rfl
  · refine ⟨.ofChar '\\', .ofChar 'u' :: Text.hex 4 n, rfl, ?_⟩
    rw [List.cons_append, stringStep_number, List.length_cons, Text.length_hex_four small]
    exact unicodeStep_hex (c := ⟨n, bound⟩) character small
  · obtain ⟨beyond, rfl⟩ := Nat.exists_eq_add_of_le (Nat.le_of_not_lt small)
    have others : (unicodeEscape (0xDC00 + beyond % 0x400)).length = 6 :=
      congrArg (· + 2) (Text.length_hex_four (by omega))
    rw [Nat.add_sub_cancel_left]
    refine ⟨.ofChar '\\', .ofChar 'u' :: (Text.hex 4 (0xD800 + beyond / 0x400) ++
      unicodeEscape (0xDC00 + beyond % 0x400)), rfl, ?_⟩
    rw [List.cons_append, stringStep_number, List.length_cons, List.length_append,
      Text.length_hex_four (by omega), others, List.append_assoc, unicodeStep_hex_pair (by omega) (by omega)]
    rw [joinSurrogates_halves (c := ⟨0x10000 + beyond, bound⟩) rfl]

end Step

/-- A string is read back with its closing quote. -/
theorem readString_printString {t opening rest : Text} (characters : t.HasNoSurrogate) :
    readString opening 0 (t.flatMap printChar ++ CodePoint.ofChar '"' :: rest) = .ok (t, rest) := by
  induction t with
  | nil => rfl
  | cons c t ih =>
    obtain ⟨character, others⟩ := List.forall_mem_cons.mp characters
    obtain ⟨next, more, follows⟩ : ∃ next more,
        t.flatMap printChar ++ CodePoint.ofChar '"' :: rest = next :: more := by
      cases t.flatMap printChar with
      | nil => exact ⟨_, _, rfl⟩
      | cons next more => exact ⟨_, _, rfl⟩
    obtain ⟨first, escape, printed, step⟩ := stringStep_printChar opening next more character
    rw [List.flatMap_cons, printed, List.cons_append, List.cons_append, List.append_assoc, follows,
      readString, step]
    dsimp only
    rw [readString_skip, ← follows, ih others]
    rfl

end Json

end BitLayout
