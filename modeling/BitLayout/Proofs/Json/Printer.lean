import BitLayout.Json.Printer
import BitLayout.Proofs.Outcome
import BitLayout.Proofs.Text.Numeral
import BitLayout.Proofs.Value.Parts
import Mathlib.Data.List.Forall2
import Mathlib.Tactic.SplitIfs

/-!
# Printed JSON

The text of a list or record is that of its parts between brackets. It consists of visible ASCII
characters, spaces and line feeds, and it starts with none of the characters that stand
between values.

## Main definitions

* `Json.enclosed`: parts between brackets
* `Json.IsPrinted`, `Json.StartsValue`

## Main results

* `Json.printItems_eq_ok_iff`, `Json.printEntries_eq_ok_iff`: the parts one by one
* `Json.printAt_list_eq_ok_iff`, `Json.printAt_dict_eq_ok_iff`
* `Json.isPrinted_of_printAt`, `Json.startsValue_of_printAt`
-/

namespace BitLayout.Json

variable {style : Style} {level : Nat} {t : Text} {parts : List Text} {items : List Value}
  {entries : Entries} {value : Value} {kind name : Text → Prop}

section Parts

/-- Parts between brackets, the first of them on a line of its own if they are indented. -/
def enclosed (style : Style) (level : Nat) (first last : Text) (parts : List Text) : Text :=
  first ++ lineBreak style (level + 1) ++ Text.joined (separator style (level + 1)) parts ++
    lineBreak style level ++ last

/-- What is printed for an entry: its name and its content. -/
def PrintsEntry (style : Style) (level : Nat) (entry : Value × Value) (part : Text) : Prop :=
  ∃ name content, keyText entry.1 = .ok name ∧ printAt style level entry.2 = .ok content ∧
    part = printString name ++ ": " ++ content

/-- What holds of everything that is printed for one of the sources. -/
theorem forall_of_forall₂ {α : Type} {prints : α → Text → Prop} {sources : List α}
    {P : Text → Prop} (each : List.Forall₂ prints sources parts)
    (holds : ∀ source ∈ sources, ∀ part, prints source part → P part) : ∀ part ∈ parts, P part := by
  induction each with
  | nil => exact fun _ member => nomatch member
  | cons first _ ih =>
    obtain ⟨holds_first, holds_rest⟩ := List.forall_mem_cons.mp holds
    exact List.forall_mem_cons.mpr ⟨holds_first _ first, ih holds_rest⟩

theorem printItems_eq_ok_iff :
    printItems style level items = .ok parts ↔
      List.Forall₂ (fun item part => printAt style level item = .ok part) items parts := by
  induction items generalizing parts with
  | nil =>
    rw [printItems, List.forall₂_nil_left_iff]
    exact ⟨fun same => (Except.ok.inj same).symm, fun empty => congrArg _ empty.symm⟩
  | cons item rest ih =>
    rw [printItems, List.forall₂_cons_left_iff]
    constructor
    · intro printed
      obtain ⟨first, printed_first, printed⟩ := bind_eq_ok_iff.mp printed
      obtain ⟨others, printed_rest, same⟩ := bind_eq_ok_iff.mp printed
      exact ⟨first, others, printed_first, ih.mp printed_rest, (Except.ok.inj same).symm⟩
    · rintro ⟨first, others, printed_first, printed_rest, rfl⟩
      exact bind_eq_ok_iff.mpr ⟨first, printed_first,
        bind_eq_ok_iff.mpr ⟨others, ih.mpr printed_rest, rfl⟩⟩

theorem printEntries_eq_ok_iff :
    printEntries style level entries = .ok parts ↔
      List.Forall₂ (PrintsEntry style level) entries parts := by
  induction entries generalizing parts with
  | nil =>
    rw [printEntries, List.forall₂_nil_left_iff]
    exact ⟨fun same => (Except.ok.inj same).symm, fun empty => congrArg _ empty.symm⟩
  | cons entry rest ih =>
    obtain ⟨key, value⟩ := entry
    rw [printEntries, List.forall₂_cons_left_iff]
    constructor
    · intro printed
      obtain ⟨name, named, printed⟩ := bind_eq_ok_iff.mp printed
      obtain ⟨content, printed_first, printed⟩ := bind_eq_ok_iff.mp printed
      obtain ⟨others, printed_rest, same⟩ := bind_eq_ok_iff.mp printed
      exact ⟨_, others, ⟨name, content, named, printed_first, rfl⟩, ih.mp printed_rest,
        (Except.ok.inj same).symm⟩
    · rintro ⟨_, others, ⟨name, content, named, printed_first, rfl⟩, printed_rest, rfl⟩
      exact bind_eq_ok_iff.mpr ⟨name, named, bind_eq_ok_iff.mpr ⟨content, printed_first,
        bind_eq_ok_iff.mpr ⟨others, ih.mpr printed_rest, rfl⟩⟩⟩

theorem printAt_list_eq_ok_iff :
    printAt style level (.list items) = .ok t ↔
      (items = [] ∧ t = "[]") ∨
        ∃ parts, items ≠ [] ∧
          List.Forall₂ (fun item part => printAt style (level + 1) item = .ok part) items parts ∧
          t = enclosed style level "[" "]" parts := by
  rw [printAt]
  cases items with
  | nil =>
    rw [printArray]
    constructor
    · intro same
      exact Or.inl ⟨rfl, (Except.ok.inj same).symm⟩
    · rintro (⟨-, rfl⟩ | ⟨parts, something, -⟩)
      · rfl
      · exact absurd rfl something
  | cons item rest =>
    have parts_eq : printArray style level (item :: rest) =
        (printItems style (level + 1) (item :: rest) >>= fun parts =>
          .ok (enclosed style level "[" "]" parts)) := by
      rw [printArray, printItems]
      cases printAt style (level + 1) item with
      | error e => rfl
      | ok first => cases printItems style (level + 1) rest <;> rfl
    rw [parts_eq, bind_eq_ok_iff]
    constructor
    · rintro ⟨parts, printed, same⟩
      exact Or.inr ⟨parts, nofun, printItems_eq_ok_iff.mp printed, (Except.ok.inj same).symm⟩
    · rintro (⟨empty, -⟩ | ⟨parts, -, printed, rfl⟩)
      · cases empty
      · exact ⟨parts, printItems_eq_ok_iff.mpr printed, rfl⟩

theorem printAt_dict_eq_ok_iff :
    printAt style level (.dict entries) = .ok t ↔
      (entries = [] ∧ t = "\x7b\x7d") ∨
        ∃ parts, entries ≠ [] ∧ List.Forall₂ (PrintsEntry style (level + 1)) entries parts ∧
          t = enclosed style level "\x7b" "\x7d" parts := by
  cases entries with
  | nil =>
    rw [printAt]
    constructor
    · intro same
      exact Or.inl ⟨rfl, (Except.ok.inj same).symm⟩
    · rintro (⟨-, rfl⟩ | ⟨parts, something, -⟩)
      · rfl
      · exact absurd rfl something
  | cons entry rest =>
    rw [printAt, bind_eq_ok_iff]
    constructor
    · rintro ⟨parts, printed, same⟩
      exact Or.inr ⟨parts, nofun, printEntries_eq_ok_iff.mp printed, (Except.ok.inj same).symm⟩
    · rintro (⟨empty, -⟩ | ⟨parts, -, printed, rfl⟩)
      · cases empty
      · exact ⟨parts, printEntries_eq_ok_iff.mpr printed, rfl⟩

end Parts

section Characters

/-- Visible ASCII, a space or a line feed. -/
def IsPrinted (c : CodePoint) : Prop := c.toNat = 0x0A ∨ 0x20 ≤ c.toNat ∧ c.toNat < 0x7F

instance : DecidablePred IsPrinted := fun _ => inferInstanceAs (Decidable (_ ∨ _ ∧ _))

theorem isPrinted_digitChar {d : Nat} (small : d < 16) :
    IsPrinted (CodePoint.ofChar d.digitChar) := by
  decide +revert

theorem isPrinted_unicodeEscape {n : Nat} (small : n < 0x10000) :
    ∀ c ∈ unicodeEscape n, IsPrinted c := by
  refine List.forall_mem_append.mpr ⟨by decide, ?_⟩
  rw [Text.hex_four small]
  simp only [List.forall_mem_cons]
  exact ⟨isPrinted_digitChar (by omega), isPrinted_digitChar (by omega),
    isPrinted_digitChar (by omega), isPrinted_digitChar (by omega), nofun⟩

theorem isPrinted_printChar (c : CodePoint) : ∀ d ∈ printChar c, IsPrinted d := by
  have bound := c.isLt
  rw [printChar]
  split_ifs with quote backslash lineFeed carriageReturn tab formFeed backspace plain small
  iterate 7
    · decide
  · rw [Bool.and_eq_true, decide_eq_true_eq, decide_eq_true_eq] at plain
    exact List.forall_mem_singleton.mpr (Or.inr plain)
  · exact isPrinted_unicodeEscape small
  · exact List.forall_mem_append.mpr
      ⟨isPrinted_unicodeEscape (by omega), isPrinted_unicodeEscape (by omega)⟩

theorem isPrinted_printString (t : Text) : ∀ c ∈ printString t, IsPrinted c := by
  refine List.forall_mem_append.mpr ⟨List.forall_mem_append.mpr ⟨by decide, ?_⟩, by decide⟩
  intro d member
  obtain ⟨c, -, member⟩ := List.mem_flatMap.mp member
  exact isPrinted_printChar c d member

theorem isPrinted_ofInt (n : Int) : ∀ c ∈ Text.ofInt n, IsPrinted c := by
  intro c member
  rcases Text.digit_or_sign_of_mem_ofInt member with digit | rfl
  · rw [CodePoint.isDigit, Bool.and_eq_true, decide_eq_true_eq, decide_eq_true_eq] at digit
    exact Or.inr (by omega)
  · decide

theorem printInt_eq_ok_iff {n : Int} :
    printInt n = .ok t ↔ (Text.ofNat n.natAbs).length ≤ maxDigits ∧ t = Text.ofInt n := by
  rw [printInt]
  split_ifs with tooMany
  · exact ⟨nofun, fun ⟨within, _⟩ => absurd tooMany (Nat.not_lt_of_le within)⟩
  · exact ⟨fun same => ⟨Nat.le_of_not_lt tooMany, (Except.ok.inj same).symm⟩,
      fun ⟨_, same⟩ => congrArg _ same.symm⟩

theorem isPrinted_lineBreak : ∀ c ∈ lineBreak style level, IsPrinted c := by
  cases style with
  | line => exact fun _ member => nomatch member
  | indented =>
    refine List.forall_mem_append.mpr ⟨by decide, fun c member => ?_⟩
    obtain ⟨blank, listed, member⟩ := List.mem_flatten.mp member
    rw [List.eq_of_mem_replicate listed] at member
    exact (by decide : ∀ c ∈ Text.ofString " ", IsPrinted c) c member

theorem isPrinted_separator : ∀ c ∈ separator style level, IsPrinted c := by
  cases style with
  | line => exact (by decide : ∀ c ∈ Text.ofString ", ", IsPrinted c)
  | indented => exact List.forall_mem_append.mpr ⟨by decide, isPrinted_lineBreak⟩

theorem isPrinted_joined (each : ∀ part ∈ parts, ∀ c ∈ part, IsPrinted c) :
    ∀ c ∈ Text.joined (separator style level) parts, IsPrinted c := by
  induction parts with
  | nil => exact fun _ member => nomatch member
  | cons part rest ih =>
    obtain ⟨first, others⟩ := List.forall_mem_cons.mp each
    cases rest with
    | nil => exact first
    | cons second rest =>
      exact List.forall_mem_append.mpr
        ⟨List.forall_mem_append.mpr ⟨first, isPrinted_separator⟩, ih others⟩

theorem isPrinted_enclosed {first last : Text} (before : ∀ c ∈ first, IsPrinted c)
    (after : ∀ c ∈ last, IsPrinted c) (each : ∀ part ∈ parts, ∀ c ∈ part, IsPrinted c) :
    ∀ c ∈ enclosed style level first last parts, IsPrinted c := by
  simp only [enclosed, List.forall_mem_append]
  exact ⟨⟨⟨⟨before, isPrinted_lineBreak⟩, isPrinted_joined each⟩, isPrinted_lineBreak⟩, after⟩

/-- What is printed for numbers and texts, nested in any way, consists of such characters. -/
theorem isPrinted_of_printAt (made : value.MadeOf (Value.IsScalar kind) name)
    (printed : printAt style level value = .ok t) : ∀ c ∈ t, IsPrinted c := by
  induction made generalizing level t with
  | @part value holds =>
    match value, holds with
    | .null, _ =>
      cases printed
      decide
    | .bool b, _ =>
      cases printed
      cases b <;> decide
    | .int n, _ =>
      obtain ⟨-, rfl⟩ := printInt_eq_ok_iff.mp printed
      exact isPrinted_ofInt n
    | .text t, _ =>
      cases printed
      exact isPrinted_printString t
  | list _ ih =>
    rcases printAt_list_eq_ok_iff.mp printed with ⟨-, rfl⟩ | ⟨parts, -, each, rfl⟩
    · decide
    · refine isPrinted_enclosed (by decide) (by decide) (forall_of_forall₂ each ?_)
      exact fun item listed part printed => ih item listed printed
  | dict _ _ ih =>
    rcases printAt_dict_eq_ok_iff.mp printed with ⟨-, rfl⟩ | ⟨parts, -, each, rfl⟩
    · decide
    · refine isPrinted_enclosed (by decide) (by decide) (forall_of_forall₂ each ?_)
      rintro entry listed _ ⟨key, content, -, printed, rfl⟩
      exact List.forall_mem_append.mpr ⟨List.forall_mem_append.mpr
        ⟨isPrinted_printString key, by decide⟩, ih entry listed printed⟩

/-- A text that starts like a value: with no blank and with no bracket that ends a list or record. -/
def StartsValue (t : Text) : Prop :=
  ∃ c rest, t = c :: rest ∧ 0x20 < c.toNat ∧ c.toNat ≠ 0x5D ∧ c.toNat ≠ 0x7D

theorem startsValue_ofInt (n : Int) : StartsValue (Text.ofInt n) := by
  cases n with
  | ofNat n =>
    obtain ⟨c, rest, numeral, -, bounds⟩ := Text.exists_digit_ofNat n
    exact ⟨c, rest, numeral, by omega, by omega, by omega⟩
  | negSucc n => exact ⟨_, _, rfl, by decide, by decide, by decide⟩

theorem startsValue_of_printAt (made : value.MadeOf (Value.IsScalar kind) name)
    (printed : printAt style level value = .ok t) : StartsValue t := by
  cases made with
  | part holds =>
    match value, holds with
    | .null, _ =>
      cases printed
      exact ⟨_, _, rfl, by decide, by decide, by decide⟩
    | .bool b, _ =>
      cases printed
      cases b <;> exact ⟨_, _, rfl, by decide, by decide, by decide⟩
    | .int n, _ =>
      obtain ⟨-, rfl⟩ := printInt_eq_ok_iff.mp printed
      exact startsValue_ofInt n
    | .text t, _ =>
      cases printed
      exact ⟨_, _, rfl, by decide, by decide, by decide⟩
  | list =>
    rcases printAt_list_eq_ok_iff.mp printed with ⟨-, rfl⟩ | ⟨parts, -, -, rfl⟩
    · exact ⟨_, _, rfl, by decide, by decide, by decide⟩
    · exact ⟨_, _, rfl, by decide, by decide, by decide⟩
  | dict =>
    rcases printAt_dict_eq_ok_iff.mp printed with ⟨-, rfl⟩ | ⟨parts, -, -, rfl⟩
    · exact ⟨_, _, rfl, by decide, by decide, by decide⟩
    · exact ⟨_, _, rfl, by decide, by decide, by decide⟩

end Characters

end BitLayout.Json
