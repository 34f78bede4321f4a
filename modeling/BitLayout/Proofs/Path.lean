import BitLayout.Failure
import BitLayout.Proofs.Text.Numeral

/-!
# What a rendered path tells

A full stop goes before a name and a bracket before a position, and neither of the two occurs
inside a name or a numeral. So these marks cut a rendered path into its steps again, and each mark
tells the sort of the step behind it. Only a name at the front comes without its mark.

## Main definitions

* `PathElement.IsPlain`: a step that keeps clear of the marks
* `PathElement.Marked`: how a step is spelled behind others
* `Path.Continues`: how several steps are

## Main results

* `PathElement.marked_of_renderAfter`, `Path.continues_of_foldl`: what one step of the loop renders,
  and what the whole loop does
* `Path.Continues.unique`: a continuation is read in one way only
* `Path.identified_by_render`: places with one rendering are the same
-/

namespace BitLayout

/-- A mark that goes before a step. -/
def PathElement.isMark (c : CodePoint) : Bool :=
  c = CodePoint.ofChar '.' || c = CodePoint.ofChar '['

/-- A step that keeps clear of the marks: a position, or a name that has neither of them in it and
is not empty. -/
def PathElement.IsPlain : PathElement → Prop
  | .index _ => True
  | .field name => name ≠ [] ∧ CodePoint.ofChar '.' ∉ name ∧ CodePoint.ofChar '[' ∉ name

instance : DecidablePred PathElement.IsPlain
  | .index _ => isTrue trivial
  | .field name => inferInstanceAs
    (Decidable (name ≠ [] ∧ CodePoint.ofChar '.' ∉ name ∧ CodePoint.ofChar '[' ∉ name))

namespace PathElement

variable {name s s' t t' : Text}

theorem isMark_eq_true_iff {c : CodePoint} :
    isMark c = true ↔ c = CodePoint.ofChar '.' ∨ c = CodePoint.ofChar '[' := by
  rw [isMark, Bool.or_eq_true, decide_eq_true_eq, decide_eq_true_eq]

theorem IsPlain.isMark_eq_false (plain : (field name).IsPlain) : ∀ c ∈ name, isMark c = false := by
  intro c member
  obtain ⟨-, noStop, noBracket⟩ := plain
  rw [Bool.eq_false_iff, Ne, isMark_eq_true_iff]
  rintro (rfl | rfl)
  · exact noStop member
  · exact noBracket member

/-- Two texts without a mark, each up to the end or to a mark, are the same. -/
theorem eq_of_marked (inside : ∀ c ∈ s, isMark c = false) (inside' : ∀ c ∈ s', isMark c = false)
    (marked : ∀ c ∈ t.head?, isMark c = true) (marked' : ∀ c ∈ t'.head?, isMark c = true)
    (same : s ++ t = s' ++ t') : s = s' ∧ t = t' := by
  have front {s t : Text} (inside : ∀ c ∈ s, isMark c = false)
      (marked : ∀ c ∈ t.head?, isMark c = true) : (s ++ t).takeWhile (!isMark ·) = s := by
    have none : t.takeWhile (!isMark ·) = [] := by
      cases t with
      | nil => rfl
      | cons c rest =>
        rw [List.takeWhile_cons, marked c rfl]
        rfl
    have unmarked : ∀ c ∈ s, (!isMark c) = true := by
      intro c member
      rw [inside c member, Bool.not_false]
    rw [List.takeWhile_append_of_pos unmarked, none, List.append_nil]
  have first : s = s' := by rw [← front inside marked, same, front inside' marked']
  subst first
  exact ⟨rfl, List.append_cancel_left same⟩

end PathElement

namespace Integer

variable {m n : Integer} {t : Text}

theorem isMark_of_written (written : n.written.text? = some t) :
    ∀ c ∈ t, PathElement.isMark c = false := by
  cases n with
  | truth b =>
    cases written
    cases b <;> decide
  | number n =>
    intro c member
    rw [Wording.eq_of_ofInt written] at member
    rw [Bool.eq_false_iff, Ne, PathElement.isMark_eq_true_iff]
    rcases Text.digit_or_sign_of_mem_ofInt member with digit | rfl
    · rintro (rfl | rfl) <;> exact absurd digit (by decide)
    · decide

/-- Both truth values have a letter that no numeral has. -/
theorem ofInt_ne_ofBool {n : Int} {b : Bool} : Text.ofInt n ≠ Text.ofBool b := by
  have letter : CodePoint.ofChar 'e' ∈ Text.ofBool b := by cases b <;> decide
  intro same
  rw [← same] at letter
  exact absurd (Text.digit_or_sign_of_mem_ofInt letter) (by decide)

/-- The spelling of an integer tells it. -/
theorem eq_of_written (written : m.written.text? = some t) (written' : n.written.text? = some t) :
    m = n := by
  cases m with
  | number m =>
    have spelled := Wording.eq_of_ofInt written
    cases n with
    | number n =>
      have spelled' := Wording.eq_of_ofInt written'
      exact congrArg number (Text.ofInt_injective (spelled.symm.trans spelled'))
    | truth b =>
      cases written'
      exact absurd spelled.symm ofInt_ne_ofBool
  | truth b =>
    cases written
    cases n with
    | number n => exact absurd (Wording.eq_of_ofInt written').symm ofInt_ne_ofBool
    | truth b' =>
      cases b <;> cases b' <;> first | rfl | cases written'

end Integer

namespace PathElement

variable {element element' : PathElement} {s s' t t' : Text}

/-- How a step is spelled behind others. -/
inductive Marked : PathElement → Text → Prop
  | index {position : Integer} {numeral : Text} (written : position.written.text? = some numeral) :
    Marked (.index position) (CodePoint.ofChar '[' :: (numeral ++ [CodePoint.ofChar ']']))
  | field (name : Text) : Marked (.field name) (CodePoint.ofChar '.' :: name)

theorem Marked.head (marked : element.Marked s) : ∃ c rest, s = c :: rest ∧ isMark c = true := by
  cases marked with
  | index | field => exact ⟨_, _, rfl, rfl⟩

/-- The marks at the front tell the sort of two steps, and the next mark tells where they end. -/
theorem Marked.unique (plain : element.IsPlain) (plain' : element'.IsPlain)
    (marked : element.Marked s) (marked' : element'.Marked s')
    (next : ∀ c ∈ t.head?, isMark c = true) (next' : ∀ c ∈ t'.head?, isMark c = true)
    (same : s ++ t = s' ++ t') : element = element' ∧ t = t' := by
  cases marked with
  | @index position numeral written =>
    cases marked' with
    | @index position' numeral' written' =>
      have bracketed {position : Integer} {numeral : Text}
          (written : position.written.text? = some numeral) :
          ∀ c ∈ numeral ++ [CodePoint.ofChar ']'], isMark c = false :=
        List.forall_mem_append.mpr ⟨Integer.isMark_of_written written, by decide⟩
      obtain ⟨numerals, rfl⟩ := eq_of_marked (bracketed written) (bracketed written') next next'
        (List.cons.inj same).2
      rw [List.append_cancel_right numerals] at written
      exact ⟨congrArg _ (Integer.eq_of_written written written'), rfl⟩
    | field => exact absurd (List.cons.inj same).1 (by decide)
  | field name =>
    cases marked' with
    | index => exact absurd (List.cons.inj same).1 (by decide)
    | field name' =>
      obtain ⟨rfl, rfl⟩ := eq_of_marked plain.isMark_eq_false plain'.isMark_eq_false next next'
        (List.cons.inj same).2
      exact ⟨rfl, rfl⟩

/-- A position always goes with its brackets. -/
theorem exists_of_renderAfter_index {position : Integer} {rendered : Wording}
    (ended : ((index position).renderAfter rendered).text? = some t) :
    ∃ s numeral, rendered.text? = some s ∧ position.written.text? = some numeral ∧
      s ++ CodePoint.ofChar '[' :: (numeral ++ [CodePoint.ofChar ']']) = t := by
  rw [renderAfter] at ended
  obtain ⟨_, _, opened, closed, rfl⟩ := Wording.text?_append_eq_some_iff.mp ended
  obtain ⟨_, numeral, bracket, written, rfl⟩ := Wording.text?_append_eq_some_iff.mp opened
  obtain ⟨s, _, before, isOpen, rfl⟩ := Wording.text?_append_eq_some_iff.mp bracket
  cases isOpen
  cases closed
  refine ⟨s, numeral, before, written, ?_⟩
  rw [List.append_assoc, List.append_assoc]
  rfl

/-- One step of the loop puts the step behind what is rendered already. -/
theorem marked_of_renderAfter {rendered : Wording}
    (ended : (element.renderAfter rendered).text? = some t) :
    ∃ s, rendered.text? = some s ∧ (s ≠ [] → ∃ u, element.Marked u ∧ s ++ u = t) := by
  cases element with
  | index position =>
    obtain ⟨s, numeral, before, written, same⟩ := exists_of_renderAfter_index ended
    exact ⟨s, before, fun _ => ⟨_, .index written, same⟩⟩
  | field name =>
    rw [renderAfter] at ended
    split_ifs at ended with nothing
    · -- Nothing is rendered yet, so the name would be the first step.
      obtain ⟨_ | s⟩ := rendered
      · cases nothing
      · exact ⟨s, rfl, fun something => absurd (List.isEmpty_iff.mp nothing) something⟩
    · obtain ⟨_, _, stopped, named, rfl⟩ := Wording.text?_append_eq_some_iff.mp ended
      obtain ⟨s, _, before, isStop, rfl⟩ := Wording.text?_append_eq_some_iff.mp stopped
      cases isStop
      cases named
      refine ⟨s, before, fun _ => ⟨_, .field name, ?_⟩⟩
      rw [List.append_assoc]
      rfl

end PathElement

namespace Path

open PathElement

variable {path other : Path} {t : Text} {rendered : Wording}

/-- How several steps are spelled behind others. -/
inductive Continues : Path → Text → Prop
  | nil : Continues [] []
  | cons {element : PathElement} {rest : Path} {s t : Text} (first : element.Marked s)
    (more : Continues rest t) : Continues (element :: rest) (s ++ t)

namespace Continues

/-- A continuation that is not empty starts with a mark. -/
theorem isMark_head (continues : Continues path t) : ∀ c ∈ t.head?, isMark c = true := by
  cases continues with
  | nil => nofun
  | cons first =>
    obtain ⟨mark, _, rfl, isMark⟩ := first.head
    intro c same
    cases same
    exact isMark

/-- A continuation is read in one way only. -/
theorem unique (plain : ∀ element ∈ path, element.IsPlain)
    (plain' : ∀ element ∈ other, element.IsPlain) (continues : Continues path t)
    (continues' : Continues other t) : path = other := by
  induction continues generalizing other with
  | nil =>
    generalize same : ([] : Text) = whole at continues'
    cases continues' with
    | nil => rfl
    | cons first =>
      obtain ⟨_, _, rfl, -⟩ := first.head
      cases same
  | @cons element rest s t first more ih =>
    -- The other path may divide the same text elsewhere, so the division is forgotten here.
    generalize same : s ++ t = whole at continues'
    cases continues' with
    | nil =>
      obtain ⟨_, _, rfl, -⟩ := first.head
      cases same
    | @cons element' rest' s' t' first' more' =>
      obtain ⟨here, later⟩ := List.forall_mem_cons.mp plain
      obtain ⟨here', later'⟩ := List.forall_mem_cons.mp plain'
      obtain ⟨rfl, rfl⟩ :=
        first.unique here here' first' more.isMark_head more'.isMark_head same
      rw [ih later later' more']

end Continues

/-- The loop puts a continuation behind what is rendered already. -/
theorem continues_of_foldl (ended : (path.foldl renderAfter rendered).text? = some t) :
    ∃ s, rendered.text? = some s ∧ (s ≠ [] → ∃ u, Continues path u ∧ s ++ u = t) := by
  induction path generalizing rendered with
  | nil => exact ⟨t, ended, fun _ => ⟨[], .nil, List.append_nil t⟩⟩
  | cons element rest ih =>
    obtain ⟨_, step, run⟩ := ih ended
    obtain ⟨s, before, marked⟩ := marked_of_renderAfter step
    refine ⟨s, before, fun something => ?_⟩
    obtain ⟨u, first, rfl⟩ := marked something
    obtain ⟨v, more, same⟩ := run (List.append_ne_nil_of_left_ne_nil something u)
    exact ⟨u ++ v, .cons first more, by rw [← same, List.append_assoc]⟩

/-- A rendered path with the mark that is left out at the front. -/
def withMark : Text → Text
  | [] => []
  | c :: rest =>
    if c = CodePoint.ofChar '[' then c :: rest else CodePoint.ofChar '.' :: c :: rest

/-- The first step comes without its full stop. -/
theorem marked_of_first {element : PathElement} {s : Text} (plain : element.IsPlain)
    (ended : (element.renderAfter (.ofText [])).text? = some s) :
    s ≠ [] ∧ ∃ u, element.Marked u ∧ ∀ t, withMark (s ++ t) = u ++ t := by
  cases element with
  | index position =>
    obtain ⟨s, numeral, before, written, rfl⟩ := exists_of_renderAfter_index ended
    cases before
    exact ⟨nofun, _, .index written, fun t => rfl⟩
  | field name =>
    obtain ⟨something, -, noBracket⟩ := plain
    cases ended
    obtain ⟨c, rest, rfl⟩ := List.exists_cons_of_ne_nil something
    have other : c ≠ CodePoint.ofChar '[' := fun same => noBracket (same ▸ List.mem_cons_self)
    exact ⟨something, _, .field _, fun t => if_neg other⟩

/-- A path is rendered as a continuation without the full stop in front. -/
theorem continues_of_render (plain : ∀ element ∈ path, element.IsPlain)
    (rendered : path.render.text? = some t) : Continues path (withMark t) := by
  cases path with
  | nil =>
    cases rendered
    exact .nil
  | cons element rest =>
    have whole : (rest.foldl renderAfter (element.renderAfter (.ofText []))).text? = some t :=
      rendered
    obtain ⟨s, step, run⟩ := continues_of_foldl whole
    obtain ⟨something, u, first, same⟩ := marked_of_first (plain element List.mem_cons_self) step
    obtain ⟨v, more, rfl⟩ := run something
    rw [same]
    exact .cons first more

/-- Only the path of the root is rendered without words. -/
theorem render_eq_nil_iff (plain : ∀ element ∈ path, element.IsPlain) :
    path.render.text? = some [] ↔ path = [] := by
  constructor
  · intro rendered
    exact (continues_of_render plain rendered).unique plain nofun .nil
  · rintro rfl
    rfl

/-- A name without a letter is no plain step: it would be rendered like the root. -/
example : (Path.render [.field ""]).text? = some [] := rfl

/-- Paths of plain steps are told apart by what is rendered for them. Only that of the root is
empty, so a message is led by a place exactly if its failure is not at the root. -/
theorem identified_by_render (plain : ∀ element ∈ path, element.IsPlain)
    (plain' : ∀ element ∈ other, element.IsPlain) :
    (∀ t, path.render.text? = some t → other.render.text? = some t → path = other) ∧
      (path.render.text? = some [] ↔ path = []) ∧
      ∀ cause, (Failure.located path cause).message =
        if path = [] then cause.message else path.render ++ ": " ++ cause.message := by
  refine ⟨fun t rendered rendered' => ?_, render_eq_nil_iff plain, fun cause => ?_⟩
  · exact (continues_of_render plain rendered).unique plain plain'
      (continues_of_render plain' rendered')
  · have empty : path.render.isEmpty = true ↔ path = [] :=
      Wording.isEmpty_iff.trans (render_eq_nil_iff plain)
    exact ite_congr (propext empty) (fun _ => rfl) fun _ => rfl

/-- A position and a name that looks like one. -/
theorem identified_by_render_bracket :
    (∀ element ∈ [PathElement.field "a", .index 1], element.IsPlain) ∧
      (∀ element ∈ [PathElement.field "a", .field "1]"], element.IsPlain) ∧
      Path.render [.field "a", .index 1] ≠ Path.render [.field "a", .field "1]"] ∧
      (Failure.located [.field "a", .index 1] .branchOutsideSequence).message =
        "a[1]: branch can only be used inside a sequence" := by
  have plain : ∀ element ∈ [PathElement.field "a", .index 1], element.IsPlain := by decide
  have plain' : ∀ element ∈ [PathElement.field "a", .field "1]"], element.IsPlain := by decide
  obtain ⟨tells, -, message⟩ := identified_by_render plain plain'
  refine ⟨plain, plain', fun same => ?_, (message _).trans (by decide)⟩
  have rendered : (Path.render [.field "a", .index 1]).text? = some "a[1]" := by decide
  cases tells _ rendered (same ▸ rendered)

end Path

end BitLayout
