import BitLayout.Proofs.Json.Number
import BitLayout.Proofs.Json.Text

/-!
# JSON read back

A value without byte strings and doubles is read back from the text that is printed for it, in
either style, if its texts have no surrogates and no key of a record comes twice. The reader takes a
step for each bracket and each part, so twice the length of the text bounds its steps.

## Main definitions

* `Json.ReadsBack`: a value is read from its text, whatever comes behind it

## Main results

* `Json.readItems_of_forall₂`, `Json.readEntries_of_forall₂`: the parts of a list and of a record
* `Json.readsBack`, `Json.read_of_print`
-/

namespace BitLayout.Json

variable {style : Style} {level fuel : Nat} {t blanks rest : Text} {parts : List Text}
  {items : List Value} {entries : Entries} {value : Value}

section Blanks

theorem skipBlanks_append (blank : ∀ c ∈ blanks, isBlank c = true) :
    skipBlanks (blanks ++ t) = skipBlanks t :=
  List.dropWhile_append_of_pos blank

theorem skipBlanks_of_visible {c : CodePoint} (visible : 0x20 < c.toNat) :
    skipBlanks (c :: rest) = c :: rest := by
  refine List.dropWhile_cons_of_neg ?_
  simp only [isBlank, Bool.or_eq_true, decide_eq_true_eq]
  omega

theorem skipBlanks_of_start (start : StartsValue t) : skipBlanks (t ++ rest) = t ++ rest := by
  obtain ⟨c, others, rfl, visible, -⟩ := start
  exact skipBlanks_of_visible visible

theorem isBlank_lineBreak : ∀ c ∈ lineBreak style level, isBlank c = true := by
  cases style with
  | line => exact fun _ member => nomatch member
  | indented =>
    refine List.forall_mem_append.mpr ⟨by decide, fun c member => ?_⟩
    obtain ⟨blank, listed, member⟩ := List.mem_flatten.mp member
    rw [List.eq_of_mem_replicate listed] at member
    exact (by decide : ∀ c ∈ Text.ofString " ", isBlank c = true) c member

/-- A separator is a comma with blanks after it. -/
theorem separator_eq (style : Style) (level : Nat) :
    ∃ blanks, separator style level = CodePoint.ofChar ',' :: blanks ∧
      ∀ c ∈ blanks, isBlank c = true := by
  cases style with
  | line => exact ⟨Text.ofString " ", rfl, by decide⟩
  | indented => exact ⟨_, rfl, isBlank_lineBreak⟩

theorem endsNumber_of_head {c : CodePoint} (other : c.isDigit = false ∧ c.toNat ≠ 0x2E ∧
    c.toNat ≠ 0x65 ∧ c.toNat ≠ 0x45) : EndsNumber (c :: rest) := by
  intro d same
  cases same
  exact other

/-- No blank belongs to a number. -/
theorem endsNumber_append (blank : ∀ c ∈ blanks, isBlank c = true) (ends : EndsNumber rest) :
    EndsNumber (blanks ++ rest) := by
  cases blanks with
  | nil => exact ends
  | cons c blanks =>
    have first := blank c List.mem_cons_self
    simp only [isBlank, Bool.or_eq_true, decide_eq_true_eq] at first
    refine endsNumber_of_head ⟨?_, by omega, by omega, by omega⟩
    rw [CodePoint.isDigit, Bool.and_eq_false_iff, decide_eq_false_iff_not]
    omega

end Blanks

/-- A value is read from its text if what follows does not go on with a number. -/
def ReadsBack (style : Style) (value : Value) : Prop :=
  ∀ {level t fuel rest}, printAt style level value = .ok t → EndsNumber rest →
    2 * t.length + 1 ≤ fuel → readValue fuel (t ++ rest) = .ok (value, rest)

section Parts

theorem startsValue_joined {part : Text} (start : StartsValue part) :
    StartsValue (Text.joined (separator style level) (part :: parts)) := by
  obtain ⟨c, others, rfl, visible, notLast⟩ := start
  cases parts with
  | nil => exact ⟨c, others, rfl, visible, notLast⟩
  | cons second parts => exact ⟨c, _, rfl, visible, notLast⟩

/-- Behind the first of several parts there are a comma, blanks and the other parts. -/
theorem joined_cons_cons (style : Style) (level : Nat) (part second : Text) (parts : List Text) :
    ∃ between, (∀ c ∈ between, isBlank c = true) ∧
      (∀ more, Text.joined (separator style level) (part :: second :: parts) ++ more =
        part ++ CodePoint.ofChar ',' ::
          (between ++ (Text.joined (separator style level) (second :: parts) ++ more))) ∧
      part.length + (Text.joined (separator style level) (second :: parts)).length + 1 ≤
        (Text.joined (separator style level) (part :: second :: parts)).length := by
  obtain ⟨between, separated, blank⟩ := separator_eq style level
  have joined : Text.joined (separator style level) (part :: second :: parts) =
      part ++ (CodePoint.ofChar ',' :: between) ++
        Text.joined (separator style level) (second :: parts) := by
    rw [← separated, Text.joined]
    exact nofun
  refine ⟨between, blank, fun more => ?_, ?_⟩
  · simp only [joined, List.append_assoc, List.cons_append]
  · simp only [joined, List.length_append, List.length_cons]
    omega

section Items

theorem readItems_last {item : Value} {tail : Text} (read : readValue fuel t = .ok (item, tail))
    (close : skipBlanks tail = CodePoint.ofChar ']' :: rest) :
    readItems (fuel + 1) t = .ok ([item], rest) := by
  rw [readItems, read]
  dsimp only [bind, Except.bind]
  rw [close]
  rfl

theorem readItems_more {item : Value} {tail after : Text}
    (read : readValue fuel t = .ok (item, tail))
    (comma : skipBlanks tail = CodePoint.ofChar ',' :: after)
    (others : readItems fuel (skipBlanks after) = .ok (items, rest)) :
    readItems (fuel + 1) t = .ok (item :: items, rest) := by
  rw [readItems, read]
  dsimp only [bind, Except.bind]
  rw [comma]
  dsimp only
  rw [others]
  rfl

/-- The items of a list with the bracket at its end. -/
theorem readItems_of_forall₂
    (each : List.Forall₂ (fun item part => printAt style level item = .ok part) items parts)
    (something : items ≠ []) (reads : ∀ item ∈ items, ReadsBack style item)
    (starts : ∀ part ∈ parts, StartsValue part) (blank : ∀ c ∈ blanks, isBlank c = true)
    (enough : 2 * (Text.joined (separator style level) parts).length + 2 ≤ fuel) :
    readItems fuel (Text.joined (separator style level) parts ++
      (blanks ++ CodePoint.ofChar ']' :: rest)) = .ok (items, rest) := by
  induction each generalizing fuel with
  | nil => exact absurd rfl something
  | @cons item part items parts printed each ih =>
    obtain ⟨reads_item, reads_rest⟩ := List.forall_mem_cons.mp reads
    obtain ⟨-, starts_rest⟩ := List.forall_mem_cons.mp starts
    obtain ⟨fuel, rfl⟩ : ∃ less, fuel = less + 1 := ⟨fuel - 1, by omega⟩
    cases each with
    | nil =>
      rw [Text.joined] at enough ⊢
      have ends : EndsNumber (blanks ++ CodePoint.ofChar ']' :: rest) :=
        endsNumber_append blank (endsNumber_of_head (by decide))
      refine readItems_last (reads_item printed ends (by omega)) ?_
      rw [skipBlanks_append blank]
      exact skipBlanks_of_visible (by decide)
    | @cons second secondPart items parts printed_second each =>
      obtain ⟨between, blank_between, joined, longer⟩ :=
        joined_cons_cons style level part secondPart parts
      rw [joined]
      have ends : EndsNumber (CodePoint.ofChar ',' :: (between ++
          (Text.joined (separator style level) (secondPart :: parts) ++
            (blanks ++ CodePoint.ofChar ']' :: rest)))) := endsNumber_of_head (by decide)
      refine readItems_more (reads_item printed ends (by omega))
        (skipBlanks_of_visible (by decide)) ?_
      rw [skipBlanks_append blank_between, skipBlanks_of_start
        (startsValue_joined (starts_rest _ List.mem_cons_self))]
      exact ih nofun reads_rest starts_rest (by omega)

end Items

section Entries

variable {name content tail : Text}

theorem startsValue_of_printsEntry {entry : Value × Value} {part : Text}
    (printed : PrintsEntry style level entry part) : StartsValue part := by
  obtain ⟨_, _, -, -, rfl⟩ := printed
  exact ⟨_, _, rfl, by decide, by decide, by decide⟩

/-- The entry at the front, with whatever the steps after it come to. -/
theorem readEntries_entry (characters : name.HasNoSurrogate) (start : StartsValue content)
    (read : readValue fuel (content ++ tail) = .ok (value, tail)) :
    readEntries (fuel + 1) (printString name ++ ": " ++ content ++ tail) =
      match skipBlanks tail with
      | d :: after =>
        if d.toNat = 0x7D then .ok ([(.text name, value)], after)
        else if d.toNat = 0x2C then do
          let (entries, rest) ← readEntries fuel (skipBlanks after)
          .ok ((.text name, value) :: entries, rest)
        else .error ⟨.comma, after.length + 1⟩
      | [] => .error ⟨.comma, 0⟩ := by
  have printed : printString name ++ ": " ++ content ++ tail = CodePoint.ofChar '"' ::
      (name.flatMap printChar ++ CodePoint.ofChar '"' :: CodePoint.ofChar ':' ::
        CodePoint.ofChar ' ' :: (content ++ tail)) := by
    simp only [printString, List.append_assoc]
    rfl
  have space : ∀ c ∈ [CodePoint.ofChar ' '], isBlank c = true := by decide
  have blank : skipBlanks (CodePoint.ofChar ' ' :: (content ++ tail)) = content ++ tail :=
    (skipBlanks_append space).trans (skipBlanks_of_start start)
  rw [printed, readEntries, if_neg (by decide), readString_printString characters]
  dsimp only [bind, Except.bind]
  rw [skipBlanks_of_visible (by decide)]
  dsimp only
  rw [if_neg (by decide), blank]
  exact read ▸ rfl

theorem readEntries_last (characters : name.HasNoSurrogate) (start : StartsValue content)
    (read : readValue fuel (content ++ tail) = .ok (value, tail))
    (close : skipBlanks tail = CodePoint.ofChar '\x7d' :: rest) :
    readEntries (fuel + 1) (printString name ++ ": " ++ content ++ tail) =
      .ok ([(.text name, value)], rest) := by
  rw [readEntries_entry characters start read, close]
  rfl

theorem readEntries_more {after : Text} (characters : name.HasNoSurrogate)
    (start : StartsValue content) (read : readValue fuel (content ++ tail) = .ok (value, tail))
    (comma : skipBlanks tail = CodePoint.ofChar ',' :: after)
    (others : readEntries fuel (skipBlanks after) = .ok (entries, rest)) :
    readEntries (fuel + 1) (printString name ++ ": " ++ content ++ tail) =
      .ok ((.text name, value) :: entries, rest) := by
  rw [readEntries_entry characters start read, comma]
  dsimp only
  rw [others]
  rfl

/-- The entries of a record with the brace at its end. -/
theorem readEntries_of_forall₂ (each : List.Forall₂ (PrintsEntry style level) entries parts)
    (something : entries ≠ []) (keyed : entries.KeyedBy Text.HasNoSurrogate)
    (reads : ∀ entry ∈ entries, ReadsBack style entry.2)
    (starts : ∀ entry ∈ entries, ∀ content, printAt style level entry.2 = .ok content →
      StartsValue content)
    (blank : ∀ c ∈ blanks, isBlank c = true)
    (enough : 2 * (Text.joined (separator style level) parts).length + 2 ≤ fuel) :
    readEntries fuel (Text.joined (separator style level) parts ++
      (blanks ++ CodePoint.ofChar '\x7d' :: rest)) = .ok (entries, rest) := by
  induction each generalizing fuel with
  | nil => exact absurd rfl something
  | @cons entry part entries parts printed each ih =>
    obtain ⟨reads_value, reads_rest⟩ := List.forall_mem_cons.mp reads
    obtain ⟨starts_value, starts_rest⟩ := List.forall_mem_cons.mp starts
    obtain ⟨key, value⟩ := entry
    obtain ⟨name, rfl, characters, -⟩ := keyed.head
    obtain ⟨_, content, named, printed_value, rfl⟩ := printed
    cases named
    have start := starts_value content printed_value
    obtain ⟨fuel, rfl⟩ : ∃ less, fuel = less + 1 := ⟨fuel - 1, by omega⟩
    cases each with
    | nil =>
      rw [Text.joined] at enough ⊢
      have ends : EndsNumber (blanks ++ CodePoint.ofChar '\x7d' :: rest) :=
        endsNumber_append blank (endsNumber_of_head (by decide))
      have enough_value : 2 * content.length + 1 ≤ fuel := by
        rw [List.length_append] at enough
        omega
      refine readEntries_last characters start (reads_value printed_value ends enough_value) ?_
      rw [skipBlanks_append blank]
      exact skipBlanks_of_visible (by decide)
    | @cons second secondPart entries parts printed_second each =>
      obtain ⟨between, blank_between, joined, longer⟩ := joined_cons_cons style level
        (printString name ++ ": " ++ content) secondPart parts
      rw [List.length_append] at longer
      have enough_value : 2 * content.length + 1 ≤ fuel := by omega
      rw [joined]
      have ends : EndsNumber (CodePoint.ofChar ',' :: (between ++
          (Text.joined (separator style level) (secondPart :: parts) ++
            (blanks ++ CodePoint.ofChar '\x7d' :: rest)))) := endsNumber_of_head (by decide)
      refine readEntries_more characters start (reads_value printed_value ends enough_value)
        (skipBlanks_of_visible (by decide)) ?_
      rw [skipBlanks_append blank_between,
        skipBlanks_of_start (startsValue_joined (startsValue_of_printsEntry printed_second))]
      exact ih nofun keyed.tail reads_rest starts_rest (by omega)

end Entries

end Parts

section Values

theorem enclosed_append {first last : CodePoint} :
    enclosed style level [first] [last] parts ++ rest = first :: (lineBreak style (level + 1) ++
      (Text.joined (separator style (level + 1)) parts ++
        (lineBreak style level ++ last :: rest))) := by
  simp only [enclosed, List.append_assoc, List.cons_append, List.nil_append]

theorem length_enclosed {first last : CodePoint} :
    (Text.joined (separator style (level + 1)) parts).length + 2 ≤
      (enclosed style level [first] [last] parts).length := by
  simp only [enclosed, List.length_append, List.length_singleton]
  omega

theorem readValue_list {more : Text} (blank : ∀ c ∈ blanks, isBlank c = true)
    (start : StartsValue t) (read : readItems fuel (t ++ more) = .ok (items, rest)) :
    readValue (fuel + 1) (CodePoint.ofChar '[' :: (blanks ++ (t ++ more))) =
      .ok (.list items, rest) := by
  rw [readValue, if_neg (by decide), if_pos (by decide), skipBlanks_append blank,
    skipBlanks_of_start start]
  obtain ⟨c, others, rfl, -, notLast, -⟩ := start
  dsimp only [List.cons_append] at read ⊢
  rw [if_neg notLast, read]
  rfl

theorem readValue_dict {more : Text} (blank : ∀ c ∈ blanks, isBlank c = true)
    (start : StartsValue t) (read : readEntries fuel (t ++ more) = .ok (entries, rest)) :
    readValue (fuel + 1) (CodePoint.ofChar '\x7b' :: (blanks ++ (t ++ more))) =
      .ok (.dict (Entries.ofList entries), rest) := by
  rw [readValue, if_neg (by decide), if_neg (by decide), if_pos (by decide),
    skipBlanks_append blank, skipBlanks_of_start start]
  obtain ⟨c, others, rfl, -, -, notLast⟩ := start
  dsimp only [List.cons_append] at read ⊢
  rw [if_neg notLast, read]
  rfl

/-- A word or number does not start like a string, list or record. -/
theorem readValue_scalar {c : CodePoint} (notQuote : c.toNat ≠ 0x22) (notList : c.toNat ≠ 0x5B)
    (notRecord : c.toNat ≠ 0x7B) : readValue (fuel + 1) (c :: rest) = readScalar (c :: rest) := by
  rw [readValue, if_neg notQuote, if_neg notList, if_neg notRecord]

theorem readsBack_list
    (made : ∀ item ∈ items, item.MadeOf (Value.IsScalar Text.HasNoSurrogate) Text.HasNoSurrogate)
    (reads : ∀ item ∈ items, ReadsBack style item) : ReadsBack style (.list items) := by
  intro level t fuel rest printed ends enough
  obtain ⟨fuel, rfl⟩ : ∃ less, fuel = less + 1 := ⟨fuel - 1, by omega⟩
  rcases printAt_list_eq_ok_iff.mp printed with ⟨rfl, rfl⟩ | ⟨parts, something, each, rfl⟩
  · rfl
  · have starts : ∀ part ∈ parts, StartsValue part :=
      forall_of_forall₂ each fun item listed part => startsValue_of_printAt (made item listed)
    have longer : (Text.joined (separator style (level + 1)) parts).length + 2 ≤
      (enclosed style level "[" "]" parts).length := length_enclosed
    have start : StartsValue (Text.joined (separator style (level + 1)) parts) := by
      cases each with
      | nil => exact absurd rfl something
      | cons => exact startsValue_joined (starts _ List.mem_cons_self)
    refine (congrArg (readValue (fuel + 1)) enclosed_append).trans ?_
    exact readValue_list isBlank_lineBreak start
      (readItems_of_forall₂ each something reads starts isBlank_lineBreak (by omega))

theorem readsBack_dict (keyed : entries.KeyedBy Text.HasNoSurrogate)
    (made : ∀ entry ∈ entries,
      entry.2.MadeOf (Value.IsScalar Text.HasNoSurrogate) Text.HasNoSurrogate)
    (reads : ∀ entry ∈ entries, ReadsBack style entry.2) : ReadsBack style (.dict entries) := by
  intro level t fuel rest printed ends enough
  obtain ⟨fuel, rfl⟩ : ∃ less, fuel = less + 1 := ⟨fuel - 1, by omega⟩
  rcases printAt_dict_eq_ok_iff.mp printed with ⟨rfl, rfl⟩ | ⟨parts, something, each, rfl⟩
  · rfl
  · have longer : (Text.joined (separator style (level + 1)) parts).length + 2 ≤
      (enclosed style level "\x7b" "\x7d" parts).length := length_enclosed
    have start : StartsValue (Text.joined (separator style (level + 1)) parts) := by
      cases each with
      | nil => exact absurd rfl something
      | cons first => exact startsValue_joined (startsValue_of_printsEntry first)
    have ofList : Entries.ofList entries = entries := keyed.merge_nil
    refine (congrArg (readValue (fuel + 1)) enclosed_append).trans ?_
    refine (readValue_dict isBlank_lineBreak start (readEntries_of_forall₂ each something keyed reads
      (fun entry listed content => startsValue_of_printAt (made entry listed)) isBlank_lineBreak
      (by omega))).trans ?_
    rw [ofList]

/-- Every value of numbers and texts is read from its text. -/
theorem readsBack (made : value.MadeOf (Value.IsScalar Text.HasNoSurrogate) Text.HasNoSurrogate) :
    ReadsBack style value := by
  induction made with
  | @part value holds =>
    intro level t fuel rest printed ends enough
    obtain ⟨fuel, rfl⟩ : ∃ less, fuel = less + 1 := ⟨fuel - 1, by omega⟩
    match value, holds with
    | .null, _ =>
      cases printed
      rfl
    | .bool b, _ =>
      cases printed
      cases b <;> rfl
    | .int n, _ =>
      obtain ⟨within, rfl⟩ := printInt_eq_ok_iff.mp printed
      rw [← readScalar_ofInt within ends]
      cases n with
      | ofNat n =>
        obtain ⟨c, others, numeral, -, bounds⟩ := Text.exists_digit_ofNat n
        rw [Text.ofInt, numeral]
        exact readValue_scalar (by omega) (by omega) (by omega)
      | negSucc n => exact readValue_scalar (by decide) (by decide) (by decide)
    | .text t, characters =>
      cases printed
      have quoted : printString t ++ rest = CodePoint.ofChar '"' ::
          (t.flatMap printChar ++ CodePoint.ofChar '"' :: rest) := by
        simp only [printString, List.append_assoc]
        rfl
      rw [quoted, readValue, if_pos (by decide), readString_printString characters]
      rfl
  | list made ih => exact readsBack_list made ih
  | dict keyed made ih => exact readsBack_dict keyed made ih

/-- A whole document is read back, with blanks behind it. -/
theorem read_of_print
    (made : value.MadeOf (Value.IsScalar Text.HasNoSurrogate) Text.HasNoSurrogate)
    (printed : print style value = .ok t) (blank : ∀ c ∈ blanks, isBlank c = true) :
    read (t ++ blanks) = .ok value := by
  have start := startsValue_of_printAt made printed
  have noMark : (t ++ blanks).head?.any (·.toNat = 0xFEFF) = false := by
    obtain ⟨c, others, rfl, -⟩ := start
    have first := isPrinted_of_printAt made printed c List.mem_cons_self
    refine decide_eq_false fun mark => ?_
    rw [IsPrinted] at first
    omega
  have nothing : skipBlanks blanks = [] := by
    rw [← List.append_nil blanks, skipBlanks_append blank]
    rfl
  have ends : EndsNumber blanks :=
    List.append_nil blanks ▸ endsNumber_append blank fun _ first => nomatch first
  have enough : 2 * t.length + 1 ≤ 2 * (t ++ blanks).length + 2 := by
    rw [List.length_append]
    omega
  rw [read, noMark, skipBlanks_of_start start, if_neg Bool.false_ne_true]
  dsimp only
  rw [readsBack made printed ends enough]
  dsimp only [bind, Except.bind]
  rw [nothing]
  rfl

end Values

end BitLayout.Json
