import BitLayout.CommandLine.Run
import BitLayout.Proofs.Json.Soundness

/-!
# Line ends in documents

A file is read with every line end turned into a line feed. Line ends stand only where blanks may
stand, so the file itself is a document for the same value. Each lemma here takes the front of the
text that is read back to the front of the text in the file.

## Main results

* `CommandLine.blanks_of_withLineFeeds`, `CommandLine.eq_append_of_withLineFeeds`
* `CommandLine.denotes_of_withLineFeeds`, `CommandLine.document_of_withLineFeeds`
-/

namespace BitLayout

namespace Json

variable {t t' rest : Text} {c : CodePoint}

/-- Visible code points and spaces, which belong to no line end. -/
def InLine (t : Text) : Prop := ∀ c ∈ t, 0x20 ≤ c.toNat

theorem Blanks.trans (first : Blanks t t') (second : Blanks t' rest) : Blanks t rest := by
  induction first with
  | none => exact second
  | more blank _ ih => exact .more blank (ih second)

theorem HexDigit.visible {d : Nat} (digit : HexDigit c d) : 0x20 ≤ c.toNat := by
  cases digit <;> omega

theorem Numeral.inLine {n : Nat} (numeral : Numeral t n) : InLine t := by
  induction numeral with
  | one _ number => exact List.forall_mem_singleton.mpr (by omega)
  | more _ _ number ih =>
    exact List.forall_mem_append.mpr ⟨ih, List.forall_mem_singleton.mpr (by omega)⟩

theorem Number.inLine {value : Value} (number : Number t value) : InLine t := by
  have sign {sign : Text} {negative : Bool} (signed : Sign sign negative) : InLine sign := by
    cases signed with
    | none => exact nofun
    | minus => exact List.forall_mem_singleton.mpr (by decide)
  have fraction {point digits : Text} (behind : Fraction point digits) : InLine point := by
    cases behind with
    | none => exact nofun
    | digits numeral => exact List.forall_mem_cons.mpr ⟨by decide, numeral.inLine⟩
  have letter {letter : Char} (isLetter : letter = 'e' ∨ letter = 'E') :
      0x20 ≤ (CodePoint.ofChar letter).toNat := by
    rcases isLetter with rfl | rfl <;> decide
  have exponent {power : Text} {e : Int} (scaled : Exponent power e) : InLine power := by
    cases scaled with
    | none => exact nofun
    | plain isLetter numeral => exact List.forall_mem_cons.mpr ⟨letter isLetter, numeral.inLine⟩
    | plus isLetter numeral | minus isLetter numeral =>
      exact List.forall_mem_cons.mpr ⟨letter isLetter,
        List.forall_mem_cons.mpr ⟨by decide, numeral.inLine⟩⟩
  cases number with
  | integer signed digits =>
    exact List.forall_mem_append.mpr ⟨sign signed, digits.numeral.inLine⟩
  | decimal signed digits behind scaled =>
    exact List.forall_mem_append.mpr ⟨sign signed, List.forall_mem_append.mpr
      ⟨digits.numeral.inLine, List.forall_mem_append.mpr ⟨fraction behind, exponent scaled⟩⟩⟩

theorem Word.inLine {value : Value} (word : Word t value) : InLine t := by
  rw [InLine]
  cases word <;> decide

end Json

namespace CommandLine

open Json

variable {joining : Bool} {original t t' s rest : Text} {c : CodePoint}

section Texts

theorem withLineFeeds_cons (visible : 0x20 ≤ c.toNat) :
    withLineFeeds (c :: t) = c :: withLineFeeds t := by
  -- No visible code point ends a line.
  have other : c ≠ .ofChar '\r' := by
    rintro rfl
    exact absurd visible (by decide)
  rw [withLineFeeds.eq_def]
  dsimp only
  rw [if_neg other]

/-- What is no line feed was there before. -/
theorem eq_cons_of_withLineFeeds (notFeed : c ≠ .ofChar '\n')
    (same : withLineFeeds original = c :: t) :
    ∃ original', original = c :: original' ∧ withLineFeeds original' = t := by
  rw [withLineFeeds.eq_def] at same
  split at same
  next => cases same
  next d after =>
    split_ifs at same
    · split at same
      next => exact absurd (List.cons.inj same).1.symm notFeed
      next =>
        split_ifs at same <;> exact absurd (List.cons.inj same).1.symm notFeed
    · obtain ⟨rfl, rfl⟩ := List.cons.inj same
      exact ⟨after, rfl, rfl⟩

/-- What became a line feed is one blank or two. -/
theorem blanks_of_lineFeed (same : withLineFeeds original = .ofChar '\n' :: t) :
    ∃ original', Blanks original original' ∧ withLineFeeds original' = t := by
  have returns : IsBlank (.ofChar '\r') := Or.inr (Or.inr (Or.inr rfl))
  have feeds : IsBlank (.ofChar '\n') := Or.inr (Or.inr (Or.inl rfl))
  rw [withLineFeeds.eq_def] at same
  split at same
  next => cases same
  next d after =>
    split_ifs at same with isReturn
    · subst isReturn
      split at same
      next =>
        obtain ⟨-, rfl⟩ := List.cons.inj same
        exact ⟨[], .more returns .none, rfl⟩
      next e others =>
        split_ifs at same with isFeed
        · subst isFeed
          obtain ⟨-, rfl⟩ := List.cons.inj same
          exact ⟨others, .more returns (.more feeds .none), rfl⟩
        · obtain ⟨-, rfl⟩ := List.cons.inj same
          exact ⟨e :: others, .more returns .none, rfl⟩
    · obtain ⟨rfl, rfl⟩ := List.cons.inj same
      exact ⟨after, .more feeds .none, rfl⟩

theorem eq_append_of_withLineFeeds (inLine : InLine t)
    (same : withLineFeeds original = t ++ rest) :
    ∃ original', original = t ++ original' ∧ withLineFeeds original' = rest := by
  induction t generalizing original with
  | nil => exact ⟨original, rfl, same⟩
  | cons c t ih =>
    obtain ⟨visible, others⟩ := List.forall_mem_cons.mp inLine
    have notFeed : c ≠ .ofChar '\n' := by
      rintro rfl
      exact absurd visible (by decide)
    obtain ⟨original', rfl, onward⟩ := eq_cons_of_withLineFeeds notFeed same
    obtain ⟨original'', rfl, behind⟩ := ih others onward
    exact ⟨original'', rfl, behind⟩

end Texts

section Tokens

theorem blanks_of_withLineFeeds (blanks : Blanks t rest) (same : withLineFeeds original = t) :
    ∃ original', Blanks original original' ∧ withLineFeeds original' = rest := by
  -- One blank that is read may be two in the file, so the induction is on those that are read.
  induction blanks generalizing original with
  | none => exact ⟨original, .none, same⟩
  | @more c t rest blank _ ih =>
    by_cases isFeed : c = .ofChar '\n'
    · subst isFeed
      obtain ⟨original', first, same⟩ := blanks_of_lineFeed same
      obtain ⟨original'', second, same⟩ := ih same
      exact ⟨original'', first.trans second, same⟩
    · obtain ⟨original', rfl, onward⟩ := eq_cons_of_withLineFeeds isFeed same
      obtain ⟨original'', second, same⟩ := ih onward
      exact ⟨original'', .more blank second, same⟩

/-- Blanks before a visible code point. -/
theorem blanks_cons_of_withLineFeeds (blanks : Blanks t (c :: rest)) (visible : 0x20 ≤ c.toNat)
    (same : withLineFeeds original = t) :
    ∃ original', Blanks original (c :: original') ∧ withLineFeeds original' = rest := by
  obtain ⟨original', blanks, same⟩ := blanks_of_withLineFeeds blanks same
  have inLine : InLine [c] := List.forall_mem_singleton.mpr visible
  obtain ⟨original'', rfl, onward⟩ := eq_append_of_withLineFeeds inLine same
  exact ⟨original'', blanks, onward⟩

theorem escape_of_withLineFeeds {n : Nat} (escape : NumberEscape t n rest)
    (same : withLineFeeds original = t) :
    ∃ original', NumberEscape original n original' ∧ withLineFeeds original' = rest := by
  cases escape with
  | @digits a b c d _ _ _ _ _ first second third fourth =>
    have inLine : InLine [.ofChar '\\', .ofChar 'u', a, b, c, d] := by
      simp only [InLine, List.forall_mem_cons]
      exact ⟨by decide, by decide, first.visible, second.visible, third.visible, fourth.visible,
        nofun⟩
    obtain ⟨original', rfl, onward⟩ := eq_append_of_withLineFeeds inLine same
    exact ⟨original', .digits first second third fourth, onward⟩

/-- An escape stays one. -/
theorem escape_withLineFeeds {n : Nat} (escape : NumberEscape t n rest) :
    NumberEscape (withLineFeeds t) n (withLineFeeds rest) := by
  cases escape with
  | digits first second third fourth =>
    rw [withLineFeeds_cons (by decide), withLineFeeds_cons (by decide),
      withLineFeeds_cons first.visible, withLineFeeds_cons second.visible,
      withLineFeeds_cons third.visible, withLineFeeds_cons fourth.visible]
    exact .digits first second third fourth

theorem characters_of_withLineFeeds (string : Characters joining t s rest)
    (same : withLineFeeds original = t) :
    ∃ original', Characters joining original s original' ∧ withLineFeeds original' = rest := by
  induction string generalizing original with
  | close =>
    obtain ⟨original', rfl, onward⟩ := eq_cons_of_withLineFeeds (by decide) same
    exact ⟨original', .close, onward⟩
  | @plain c _ _ _ visible notQuote notBackslash _ ih =>
    have inLine : InLine [c] := List.forall_mem_singleton.mpr visible
    obtain ⟨_, rfl, onward⟩ := eq_append_of_withLineFeeds inLine same
    obtain ⟨original', others, same⟩ := ih onward
    exact ⟨original', .plain visible notQuote notBackslash others, same⟩
  | @letter letter _ _ _ _ listed _ ih =>
    have visible : ∀ entry ∈ letters, 0x20 ≤ (CodePoint.ofChar entry.1).toNat := by decide
    have inLine : InLine [.ofChar '\\', .ofChar letter] := by
      simp only [InLine, List.forall_mem_cons]
      exact ⟨by decide, visible _ listed, nofun⟩
    obtain ⟨_, rfl, onward⟩ := eq_append_of_withLineFeeds inLine same
    obtain ⟨original', others, same⟩ := ih onward
    exact ⟨original', .letter listed others, same⟩
  | number escape alone _ ih =>
    obtain ⟨_, escape', same⟩ := escape_of_withLineFeeds escape same
    obtain ⟨original', others, same'⟩ := ih same
    -- A low surrogate behind it in the file would be there in what is read, too.
    refine ⟨original', .number escape' (fun joins isHigh m _ low => ?_) others, same'⟩
    exact alone joins isHigh m _ (same ▸ escape_withLineFeeds low)
  | pair first second isHigh isLow _ ih =>
    obtain ⟨_, first', same⟩ := escape_of_withLineFeeds first same
    obtain ⟨_, second', same⟩ := escape_of_withLineFeeds second same
    obtain ⟨original', others, same⟩ := ih same
    exact ⟨original', .pair first' second' isHigh isLow others, same⟩

end Tokens

section Values

mutual

theorem denotes_of_withLineFeeds {joining : Bool} {original t rest : Text} {value : Value}
    (denotes : Denotes joining t value rest) (same : withLineFeeds original = t) :
    ∃ original', Denotes joining original value original' ∧ withLineFeeds original' = rest := by
  match denotes with
  | .word word =>
    obtain ⟨original', rfl, onward⟩ := eq_append_of_withLineFeeds word.inLine same
    exact ⟨original', .word word, onward⟩
  | .number number =>
    obtain ⟨original', rfl, onward⟩ := eq_append_of_withLineFeeds number.inLine same
    exact ⟨original', .number number, onward⟩
  | .string characters =>
    obtain ⟨_, rfl, onward⟩ := eq_cons_of_withLineFeeds (by decide) same
    obtain ⟨original', characters, same⟩ := characters_of_withLineFeeds characters onward
    exact ⟨original', .string characters, same⟩
  | .emptyList blanks =>
    obtain ⟨_, rfl, onward⟩ := eq_cons_of_withLineFeeds (by decide) same
    obtain ⟨original', blanks, same⟩ := blanks_cons_of_withLineFeeds blanks (by decide) onward
    exact ⟨original', .emptyList blanks, same⟩
  | .list blanks inside =>
    obtain ⟨_, rfl, onward⟩ := eq_cons_of_withLineFeeds (by decide) same
    obtain ⟨_, blanks, same⟩ := blanks_of_withLineFeeds blanks onward
    obtain ⟨original', inside, same⟩ := items_of_withLineFeeds inside same
    exact ⟨original', .list blanks inside, same⟩
  | .emptyRecord blanks =>
    obtain ⟨_, rfl, onward⟩ := eq_cons_of_withLineFeeds (by decide) same
    obtain ⟨original', blanks, same⟩ := blanks_cons_of_withLineFeeds blanks (by decide) onward
    exact ⟨original', .emptyRecord blanks, same⟩
  | .record blanks inside =>
    obtain ⟨_, rfl, onward⟩ := eq_cons_of_withLineFeeds (by decide) same
    obtain ⟨_, blanks, same⟩ := blanks_of_withLineFeeds blanks onward
    obtain ⟨original', inside, same⟩ := members_of_withLineFeeds inside same
    exact ⟨original', .record blanks inside, same⟩

theorem items_of_withLineFeeds {joining : Bool} {original t rest : Text} {items : List Value}
    (inside : Items joining t items rest) (same : withLineFeeds original = t) :
    ∃ original', Items joining original items original' ∧ withLineFeeds original' = rest := by
  match inside with
  | .last first blanks =>
    obtain ⟨_, first, same⟩ := denotes_of_withLineFeeds first same
    obtain ⟨original', blanks, same⟩ := blanks_cons_of_withLineFeeds blanks (by decide) same
    exact ⟨original', .last first blanks, same⟩
  | .more first blanks between others =>
    obtain ⟨_, first, same⟩ := denotes_of_withLineFeeds first same
    obtain ⟨_, blanks, same⟩ := blanks_cons_of_withLineFeeds blanks (by decide) same
    obtain ⟨_, between, same⟩ := blanks_of_withLineFeeds between same
    obtain ⟨original', others, same⟩ := items_of_withLineFeeds others same
    exact ⟨original', .more first blanks between others, same⟩

theorem members_of_withLineFeeds {joining : Bool} {original t rest : Text} {members : Entries}
    (inside : Members joining t members rest) (same : withLineFeeds original = t) :
    ∃ original', Members joining original members original' ∧
      withLineFeeds original' = rest := by
  match inside with
  | .last first blanks =>
    obtain ⟨_, first, same⟩ := member_of_withLineFeeds first same
    obtain ⟨original', blanks, same⟩ := blanks_cons_of_withLineFeeds blanks (by decide) same
    exact ⟨original', .last first blanks, same⟩
  | .more first blanks between others =>
    obtain ⟨_, first, same⟩ := member_of_withLineFeeds first same
    obtain ⟨_, blanks, same⟩ := blanks_cons_of_withLineFeeds blanks (by decide) same
    obtain ⟨_, between, same⟩ := blanks_of_withLineFeeds between same
    obtain ⟨original', others, same⟩ := members_of_withLineFeeds others same
    exact ⟨original', .more first blanks between others, same⟩

theorem member_of_withLineFeeds {joining : Bool} {original t rest name : Text} {value : Value}
    (member : Member joining t name value rest) (same : withLineFeeds original = t) :
    ∃ original', Member joining original name value original' ∧
      withLineFeeds original' = rest := by
  match member with
  | .mk named blanks between content =>
    obtain ⟨_, rfl, onward⟩ := eq_cons_of_withLineFeeds (by decide) same
    obtain ⟨_, named, same⟩ := characters_of_withLineFeeds named onward
    obtain ⟨_, blanks, same⟩ := blanks_cons_of_withLineFeeds blanks (by decide) same
    obtain ⟨_, between, same⟩ := blanks_of_withLineFeeds between same
    obtain ⟨original', content, same⟩ := denotes_of_withLineFeeds content same
    exact ⟨original', .mk named blanks between content, same⟩

end

end Values

end CommandLine

end BitLayout
