import BitLayout.Decoder
import BitLayout.Raised

/-!
# Failures and their places

What both directions have in common when they stop: the family that a failure belongs to, how a
sequence reports the failure of a slot, and why a branch does not choose.

## Main definitions

* `Failure.BelongsTo`: a failure with a cause of the given family
* `Failure.IsCodec`, `Failure.IsTruncation`: a failure of decoding or encoding, and one for want of
  bits
* `Raised.SameKind`: errors of one class at one path
* `Slot.place`: the failure of a slot as its sequence reports it
* `Layout.ChoiceFails`: why a branch chooses no alternative
-/

namespace BitLayout

/-- A failure with a cause of the given family. -/
def Failure.BelongsTo (family : Category) : Failure → Prop
  | .located _ cause => family ∈ cause.category.ancestors
  | _ => False

/-- A failure of decoding or encoding, as opposed to one of the layout or the machine. -/
abbrev Failure.IsCodec (failure : Failure) : Prop := failure.BelongsTo .codec

/-- A failure for want of bits. -/
abbrev Failure.IsTruncation (failure : Failure) : Prop := failure.BelongsTo .truncated

/-- Errors of one class at one path. -/
structure Raised.SameKind (error error' : Raised) : Prop where
  errorClass : error.errorClass = error'.errorClass
  path? : error.path? = error'.path?

/-- Failures of one class at one path are met as such, if both of their messages can be written or
neither can. -/
theorem Failure.sameKind_raised {failure failure' : Failure}
    (errorClass : failure.errorClass = failure'.errorClass) (path? : failure.path? = failure'.path?)
    (writable : failure.message.isWritable = failure'.message.isWritable) :
    failure.raised.SameKind failure'.raised := by
  constructor
  · rw [raised, raised, Raised.errorClass_saying, Raised.errorClass_saying, errorClass, writable]
  · rw [raised, raised, Raised.path?_saying, Raised.path?_saying, path?, writable]

/-- The failure of a slot seen from its sequence: under its name or its label, if it has one. -/
def Slot.place (failure : Failure) : Slot → Failure
  | .named name _ => failure.within (.field name)
  | .embedded _ => failure
  | .padding _ label => withinLabel label failure
  | .foreign .. => failure

/-- Why a branch chooses no alternative: there is no record around it, or its discriminant is not
found there, or no case has the number that it holds. -/
def Layout.ChoiceFails (scope : Scope) (discriminant : Text) (cases : List (Integer × Layout))
    (otherwise : Option Layout) (cause : Cause) : Prop :=
  (scope = none ∧ cause = .branchOutsideSequence) ∨
    (scope ≠ none ∧ resolveField scope discriminant = .error cause) ∨
    ∃ key, resolveField scope discriminant = .ok key ∧ select cases otherwise key = none ∧
      cause = .noMatchingCase discriminant key

/-- Every cause with a place in the data or the value is one of decoding or encoding. -/
theorem Failure.isCodec_located (path : Path) (cause : Cause) :
    (Failure.located path cause).IsCodec := by
  cases cause <;> simp [BelongsTo, Cause.category, Category.ancestors]

theorem Failure.isTruncation_truncated (kind : Layout.Kind) (need : Integer) (available : Nat) :
    (Failure.here (.truncated kind need available)).IsTruncation := by
  simp [BelongsTo, Cause.category, Category.ancestors]

/-- A reference is not resolved outside any record, to a field that is not there, or to one that
holds no integer. -/
theorem eq_of_resolveField_eq_error {scope : Scope} {name : Text} {cause : Cause}
    (unresolved : resolveField scope name = .error cause) :
    cause = .referenceOutsideSequence name ∨ cause = .noSuchField name ∨
      ∃ value, cause = .fieldNotInteger name value := by
  cases scope with
  | none =>
    cases unresolved
    exact Or.inl rfl
  | some record =>
    rw [resolveField] at unresolved
    split at unresolved
    · cases unresolved
      exact Or.inr (Or.inl rfl)
    · -- A field with nothing in it counts as none.
      cases unresolved
      exact Or.inr (Or.inl rfl)
    · split at unresolved
      · cases unresolved
      · cases unresolved
        exact Or.inr (Or.inr ⟨_, rfl⟩)

/-- A reference that is not resolved is reported as such. -/
theorem category_of_resolveField {scope : Scope} {name : Text} {cause : Cause}
    (unresolved : resolveField scope name = .error cause) :
    cause.category = .unresolvedReference := by
  rcases eq_of_resolveField_eq_error unresolved with rfl | rfl | ⟨value, rfl⟩ <;> rfl

theorem category_of_resolve {length : Length} {scope : Scope} {cause : Cause}
    (unresolved : length.resolve scope = .error cause) : cause.category = .unresolvedReference := by
  cases length with
  | literal count => cases unresolved
  | field name => exact category_of_resolveField unresolved

/-- A branch that does not choose is not short of bits. -/
theorem Layout.ChoiceFails.not_isTruncation {scope : Scope} {discriminant : Text}
    {cases : List (Integer × Layout)} {otherwise : Option Layout} {cause : Cause}
    (fails : ChoiceFails scope discriminant cases otherwise cause) :
    ¬(Failure.here cause).IsTruncation := by
  rcases fails with ⟨-, rfl⟩ | ⟨-, unresolved⟩ | ⟨key, -, -, rfl⟩
  · simp [Failure.BelongsTo, Cause.category, Category.ancestors]
  · simp [Failure.BelongsTo, category_of_resolveField unresolved, Category.ancestors]
  · simp [Failure.BelongsTo, Cause.category, Category.ancestors]

section Place

variable {failure : Failure} {family : Category} {path : Path} {cause : Cause}

/-- The place of a failure does not change its family. -/
@[simp] theorem Failure.belongsTo_within {element : PathElement} :
    (failure.within element).BelongsTo family ↔ failure.BelongsTo family := by
  cases failure <;> rfl

@[simp] theorem Failure.belongsTo_withinLabel {label : Option Text} :
    (withinLabel label failure).BelongsTo family ↔ failure.BelongsTo family := by
  rw [withinLabel.eq_def]
  split
  · exact belongsTo_within
  · rfl

@[simp] theorem Slot.belongsTo_place {slot : Slot} :
    (slot.place failure).BelongsTo family ↔ failure.BelongsTo family := by
  cases slot with
  | named name layout => exact Failure.belongsTo_within
  | padding layout label => exact Failure.belongsTo_withinLabel
  | embedded | foreign => rfl

/-- A failure seen from one level further out has one more step. -/
theorem Failure.within_eq_located_iff {element : PathElement} :
    failure.within element = .located path cause ↔
      ∃ rest, failure = .located rest cause ∧ path = element :: rest := by
  cases failure with
  | located =>
    simp only [within, located.injEq, and_assoc, exists_eq_left']
    exact ⟨fun ⟨steps, same⟩ => ⟨same, steps.symm⟩, fun ⟨same, steps⟩ => ⟨steps.symm, same⟩⟩
  | _ => simp [within]

/-- Padding is seen under its label, if that is not empty. -/
theorem withinLabel_eq_located {label : Option Text}
    (placed : withinLabel label failure = .located path cause) :
    ((label = none ∨ label = some []) ∧ failure = .located path cause) ∨
      ∃ name rest, label = some name ∧ name ≠ [] ∧ failure = .located rest cause ∧
        path = .field name :: rest := by
  cases label with
  | none => exact Or.inl ⟨Or.inl rfl, placed⟩
  | some name =>
    cases name with
    | nil => exact Or.inl ⟨Or.inr rfl, placed⟩
    | cons c others =>
      obtain ⟨rest, same, rfl⟩ := Failure.within_eq_located_iff.mp placed
      exact Or.inr ⟨_, rest, rfl, nofun, same, rfl⟩

/-- A failure without a place does not get one. -/
@[simp] theorem Slot.place_cursor (slot : Slot) (error : CursorError) :
    slot.place (.cursor error) = .cursor error := by
  cases slot with
  | padding layout label =>
    rw [place, withinLabel.eq_def]
    split <;> rfl
  | named | embedded | foreign => rfl

end Place

end BitLayout
