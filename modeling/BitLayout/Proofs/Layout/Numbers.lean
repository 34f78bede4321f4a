import BitLayout.Proofs.Layout.Names
import BitLayout.Proofs.Scope

/-!
# References to fields that hold numbers

A reference is sure to be resolved if it names a bit or wide field of an earlier slot of the sequence
that it stands in. The field may be a branch between such fields, and the slot may be an embedded
layout that merges them, as long as it does so whichever alternatives it chooses.

## Main definitions

* `Layout.reference?`: the name of the field that a layout itself refers to
* `Layout.IsNumber`: a layout of numbers, whatever it chooses
* `Slot.numberNames`: the numbers that a slot puts into its record for certain
* `Layout.RefersToNumbers`: every reference names a known field or such a field of an earlier slot
-/

namespace BitLayout

/-- The name of the field that holds a length. -/
def Length.field? : Length → Option Text
  | .literal _ => none
  | .field name => some name

/-- The name of the field that a layout itself refers to. -/
def Layout.reference? : Layout → Option Text
  | .array length _ => length.field?
  | .branch discriminant _ _ => some discriminant
  | .byteSlice length => length.field?
  | .text length _ => length.field?
  | _ => none

mutual

/-- A bit or wide field, or a branch that has only such alternatives. -/
def Layout.IsNumber : Layout → Prop
  | .bitField _ => True
  | .wideField _ => True
  | .branch _ cases otherwise =>
    CasesAreNumbers cases ∧
      match otherwise with
      | none => True
      | some layout => layout.IsNumber
  | _ => False

/-- Whether all cases are numbers. -/
def CasesAreNumbers : List (Integer × Layout) → Prop
  | [] => True
  | (_, layout) :: rest => layout.IsNumber ∧ CasesAreNumbers rest

end

mutual

/-- The names of the numbers that an embedded layout merges, whatever it chooses. -/
def Layout.numberNames : Layout → Set Text
  | .sequence slots => numberNamesOfSlots slots
  | .branch _ cases otherwise =>
    numberNamesOfCases cases ∩
      match otherwise with
      | none => Set.univ
      | some layout => layout.numberNames
  | _ => ∅

/-- The names of the numbers that a slot puts into its record for certain. -/
def Slot.numberNames : Slot → Set Text
  | .named name layout => {other | other = name ∧ layout.IsNumber}
  | .embedded layout => layout.numberNames
  | .padding .. => ∅
  | .foreign .. => ∅

/-- The names of the numbers that slots put into their record for certain. -/
def numberNamesOfSlots : List Slot → Set Text
  | [] => ∅
  | slot :: rest => slot.numberNames ∪ numberNamesOfSlots rest

/-- The names that all cases have in common. -/
def numberNamesOfCases : List (Integer × Layout) → Set Text
  | [] => Set.univ
  | (_, layout) :: rest => layout.numberNames ∩ numberNamesOfCases rest

end

mutual

/-- References name known fields, or numbers of earlier slots of the sequence that they are in. -/
def Layout.RefersToNumbers (layout : Layout) (known : Set Text) : Prop :=
  match layout with
  | .sequence slots => SlotsReferToNumbers slots ∅
  | .array length element => length.RefersTo known ∧ element.RefersToNumbers Set.univ
  | .branch discriminant cases otherwise =>
    discriminant ∈ known ∧ CasesReferToNumbers cases known ∧
      match otherwise with
      | none => True
      | some layout => layout.RefersToNumbers known
  | .byteSlice length => length.RefersTo known
  | .text length _ => length.RefersTo known
  | _ => True

/-- References in a slot name known fields. -/
def Slot.RefersToNumbers (slot : Slot) (known : Set Text) : Prop :=
  match slot with
  | .named _ layout => layout.RefersToNumbers known
  | .embedded layout => layout.RefersToNumbers known
  | .padding layout _ => layout.RefersToNumbers known
  | .foreign .. => True

/-- References in slots name known fields or numbers of earlier slots. -/
def SlotsReferToNumbers (slots : List Slot) (known : Set Text) : Prop :=
  match slots with
  | [] => True
  | slot :: rest =>
    slot.RefersToNumbers known ∧ SlotsReferToNumbers rest (known ∪ slot.numberNames)

/-- References in cases name known fields. -/
def CasesReferToNumbers (cases : List (Integer × Layout)) (known : Set Text) : Prop :=
  match cases with
  | [] => True
  | (_, layout) :: rest => layout.RefersToNumbers known ∧ CasesReferToNumbers rest known

end

variable {known : Set Text} {layout : Layout}

theorem Slot.RefersToNumbers.of_layout? {slot : Slot} (refers : slot.RefersToNumbers known)
    (same : slot.layout? = some layout) : layout.RefersToNumbers known := by
  cases slot with
  | named | embedded | padding =>
    rw [← Option.some.inj same]
    exact refers
  | foreign => cases same

/-- Later slots may refer to the numbers of all earlier ones. -/
theorem slotsReferToNumbers_append {front back : List Slot} :
    SlotsReferToNumbers (front ++ back) known ↔
      SlotsReferToNumbers front known ∧
        SlotsReferToNumbers back (known ∪ numberNamesOfSlots front) := by
  induction front generalizing known with
  | nil => simp [SlotsReferToNumbers, numberNamesOfSlots]
  | cons slot rest ih =>
    rw [List.cons_append, SlotsReferToNumbers, SlotsReferToNumbers, ih, numberNamesOfSlots,
      Set.union_assoc, and_assoc]

section Alternatives

variable {discriminant : Text} {cases : List (Integer × Layout)} {otherwise : Option Layout}

theorem CasesReferToNumbers.of_mem (refers : CasesReferToNumbers cases known) {key : Integer}
    (member : (key, layout) ∈ cases) : layout.RefersToNumbers known := by
  induction cases with
  | nil => cases member
  | cons entry rest ih =>
    rcases List.mem_cons.mp member with rfl | member
    · exact refers.1
    · exact ih refers.2 member

theorem Layout.RefersToNumbers.alternative
    (refers : (branch discriminant cases otherwise).RefersToNumbers known)
    (alternative : Alternative cases otherwise layout) : layout.RefersToNumbers known := by
  rcases alternative with ⟨key, member⟩ | rfl
  · have inCases : CasesReferToNumbers cases known := by cases otherwise <;> exact refers.2.1
    exact inCases.of_mem member
  · exact refers.2.2

theorem Layout.RefersToNumbers.discriminant_mem
    (refers : (branch discriminant cases otherwise).RefersToNumbers known) :
    discriminant ∈ known := by
  cases otherwise <;> exact refers.1

theorem CasesAreNumbers.of_mem (numbers : CasesAreNumbers cases) {key : Integer}
    (member : (key, layout) ∈ cases) : layout.IsNumber := by
  induction cases with
  | nil => cases member
  | cons entry rest ih =>
    rcases List.mem_cons.mp member with rfl | member
    · exact numbers.1
    · exact ih numbers.2 member

/-- A branch that is a number chooses one. -/
theorem Layout.IsNumber.alternative (isNumber : (branch discriminant cases otherwise).IsNumber)
    (alternative : Alternative cases otherwise layout) : layout.IsNumber := by
  rcases alternative with ⟨key, member⟩ | rfl
  · have numbers : CasesAreNumbers cases := by cases otherwise <;> exact isNumber.1
    exact numbers.of_mem member
  · exact isNumber.2

theorem numberNamesOfCases_subset {key : Integer} (member : (key, layout) ∈ cases) :
    numberNamesOfCases cases ⊆ layout.numberNames := by
  induction cases with
  | nil => cases member
  | cons entry rest ih =>
    rw [numberNamesOfCases]
    rcases List.mem_cons.mp member with rfl | member
    · exact Set.inter_subset_left
    · exact Set.inter_subset_right.trans (ih member)

/-- What a branch merges for certain, each of its alternatives does. -/
theorem Layout.Alternative.numberNames_subset (alternative : Alternative cases otherwise layout) :
    (branch discriminant cases otherwise).numberNames ⊆ layout.numberNames := by
  rcases alternative with ⟨key, member⟩ | rfl
  · have within := numberNamesOfCases_subset member
    cases otherwise <;> exact Set.inter_subset_left.trans within
  · exact Set.inter_subset_right

end Alternatives

section References

variable {name : Text} {length : Length}

theorem Length.resolve_of_field? (same : length.field? = some name) (scope : Scope) :
    length.resolve scope = resolveField scope name := by
  cases length with
  | literal => cases same
  | field =>
    cases same
    rfl

theorem Length.RefersTo.mem (refers : length.RefersTo known) (same : length.field? = some name) :
    name ∈ known := by
  cases length with
  | literal => cases same
  | field =>
    cases same
    exact refers

/-- What a layout itself refers to is known. -/
theorem Layout.RefersToNumbers.reference_mem (refers : layout.RefersToNumbers known)
    (same : layout.reference? = some name) : name ∈ known := by
  cases layout with
  | array length element => exact refers.1.mem same
  | branch discriminant cases otherwise =>
    cases same
    exact refers.discriminant_mem
  | byteSlice length | text length encoding => exact Length.RefersTo.mem refers same
  | _ => cases same

end References

end BitLayout
