import BitLayout.Proofs.Layout.Names
import BitLayout.Proofs.Scope

/-!
# References to earlier fields

A sequence is read from front to back, so a reference inside it has to name a field of an earlier
slot. `Layout.RefersBack` asks for this everywhere. Sequences start again without any field, embedded
ones too, and the elements of an array see no record at all.

## Main definitions

* `Layout.RefersBack`, `Slot.RefersBack`, `SlotsReferBack`
-/

namespace BitLayout

mutual

/-- References name known fields, or earlier ones of the sequence that they are in. -/
def Layout.RefersBack (layout : Layout) (known : Set Text) : Prop :=
  match layout with
  | .sequence slots => SlotsReferBack slots ∅
  | .array length element => length.RefersTo known ∧ element.RefersBack Set.univ
  | .branch discriminant cases otherwise =>
    discriminant ∈ known ∧ CasesReferBack cases known ∧
      match otherwise with
      | none => True
      | some layout => layout.RefersBack known
  | .byteSlice length => length.RefersTo known
  | .text length _ => length.RefersTo known
  | _ => True

/-- References in a slot name known fields. -/
def Slot.RefersBack (slot : Slot) (known : Set Text) : Prop :=
  match slot with
  | .named _ layout => layout.RefersBack known
  | .embedded layout => layout.RefersBack known
  | .padding layout _ => layout.RefersBack known
  | .foreign .. => True

/-- References in slots name known fields or fields of earlier slots. -/
def SlotsReferBack (slots : List Slot) (known : Set Text) : Prop :=
  match slots with
  | [] => True
  | slot :: rest =>
    slot.RefersBack known ∧ SlotsReferBack rest (known ∪ {name | name ∈ slot.names})

/-- References in cases name known fields. -/
def CasesReferBack (cases : List (Integer × Layout)) (known : Set Text) : Prop :=
  match cases with
  | [] => True
  | (_, layout) :: rest => layout.RefersBack known ∧ CasesReferBack rest known

end

variable {known : Set Text} {layout : Layout}

theorem Slot.RefersBack.of_layout? {slot : Slot} (refersBack : slot.RefersBack known)
    (same : slot.layout? = some layout) : layout.RefersBack known := by
  cases slot with
  | named | embedded | padding =>
    rw [← Option.some.inj same]
    exact refersBack
  | foreign => cases same

theorem CasesReferBack.of_mem {cases : List (Integer × Layout)}
    (refersBack : CasesReferBack cases known) {key : Integer} (member : (key, layout) ∈ cases) :
    layout.RefersBack known := by
  induction cases with
  | nil => cases member
  | cons entry rest ih =>
    rcases List.mem_cons.mp member with rfl | member
    · exact refersBack.1
    · exact ih refersBack.2 member

theorem Layout.RefersBack.alternative {discriminant : Text} {cases : List (Integer × Layout)}
    {otherwise : Option Layout}
    (refersBack : (branch discriminant cases otherwise).RefersBack known)
    (alternative : Alternative cases otherwise layout) : layout.RefersBack known := by
  rcases alternative with ⟨key, member⟩ | rfl
  · have inCases : CasesReferBack cases known := by cases otherwise <;> exact refersBack.2.1
    exact inCases.of_mem member
  · exact refersBack.2.2

theorem Layout.RefersBack.discriminant {discriminant : Text} {cases : List (Integer × Layout)}
    {otherwise : Option Layout}
    (refersBack : (branch discriminant cases otherwise).RefersBack known) :
    discriminant ∈ known := by
  cases otherwise <;> exact refersBack.1

end BitLayout
