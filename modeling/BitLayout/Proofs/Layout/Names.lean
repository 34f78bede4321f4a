import BitLayout.Proofs.Layout.Tree

/-!
# The names of a merged record

An embedded layout merges its fields into the record around it: a sequence its slots, a branch those
of the alternative it chooses. `Layout.mergedNames` lists the names that may come in this way,
whichever alternatives are chosen, and `Layout.DistinctNames` asks that no name comes into one record
by two slots.

## Main definitions

* `Layout.mergedNames`, `Slot.names`, `namesOfSlots`
* `DistinctSlots`, `Layout.DistinctNames`
-/

namespace BitLayout

mutual

/-- The names that an embedded layout may merge into the record around it. -/
def Layout.mergedNames : Layout → List Text
  | .sequence slots => namesOfSlots slots
  | .branch _ cases otherwise =>
    mergedNamesOfCases cases ++
      match otherwise with
      | none => []
      | some layout => layout.mergedNames
  | _ => []

/-- The names that a slot may put into its record. -/
def Slot.names : Slot → List Text
  | .named name _ => [name]
  | .embedded layout => layout.mergedNames
  | .padding .. => []
  | .foreign .. => []

/-- The names that slots may put into their record. -/
def namesOfSlots : List Slot → List Text
  | [] => []
  | slot :: rest => slot.names ++ namesOfSlots rest

/-- The names that cases may merge into the record around them. -/
def mergedNamesOfCases : List (Integer × Layout) → List Text
  | [] => []
  | (_, layout) :: rest => layout.mergedNames ++ mergedNamesOfCases rest

end

/-- Slots of which no two may put the same name into their record. -/
def DistinctSlots : List Slot → Prop
  | [] => True
  | slot :: rest => (∀ name ∈ slot.names, name ∉ namesOfSlots rest) ∧ DistinctSlots rest

/-- A layout that is no sequence of slots with a common name. -/
def Layout.HasDistinctSlots : Layout → Prop
  | .sequence slots => DistinctSlots slots
  | _ => True

/-- A layout in which no record gets a name by two slots. -/
def Layout.DistinctNames (layout : Layout) : Prop := layout.Everywhere HasDistinctSlots

theorem Layout.DistinctNames.rest {slot : Slot} {rest : List Slot}
    (distinct : (Layout.sequence (slot :: rest)).DistinctNames) :
    (Layout.sequence rest).DistinctNames := by
  -- A foreign slot has no layout, so nothing is asked below it.
  cases slot with
  | named | embedded | padding => exact ⟨distinct.1.2, distinct.2.2⟩
  | foreign => exact ⟨distinct.1.2, distinct.2⟩

theorem namesOfSlots_append {front back : List Slot} :
    namesOfSlots (front ++ back) = namesOfSlots front ++ namesOfSlots back := by
  induction front with
  | nil => rfl
  | cons slot rest ih =>
    rw [List.cons_append, namesOfSlots, namesOfSlots, ih, List.append_assoc]

/-- What a slot may put into its record, the slots may. -/
theorem Slot.names_subset {slot : Slot} {slots : List Slot} (member : slot ∈ slots) :
    slot.names ⊆ namesOfSlots slots := by
  obtain ⟨front, back, rfl⟩ := List.append_of_mem member
  rw [namesOfSlots_append, namesOfSlots]
  exact List.subset_append_of_subset_right _ (List.subset_append_left _ _)

/-- A name of one of several distinct slots is none of the others. -/
theorem DistinctSlots.apart {slots : List Slot} (distinct : DistinctSlots slots) {index : Nat}
    {slot : Slot} (there : slots[index]? = some slot) {name : Text} (listed : name ∈ slot.names) :
    name ∉ namesOfSlots (slots.take index) ∧ name ∉ namesOfSlots (slots.drop (index + 1)) := by
  induction slots generalizing index with
  | nil => cases there
  | cons first rest ih =>
    obtain ⟨apart, distinct_rest⟩ := distinct
    cases index with
    | zero =>
      cases there
      exact ⟨List.not_mem_nil, apart name listed⟩
    | succ index =>
      have there_rest : rest[index]? = some slot := there
      obtain ⟨notBefore, notBehind⟩ := ih distinct_rest there_rest
      refine ⟨fun member => ?_, notBehind⟩
      rcases List.mem_append.mp member with inFirst | inRest
      · exact apart name inFirst (Slot.names_subset (List.mem_of_getElem? there_rest) listed)
      · exact notBefore inRest

/-- Slots with distinct names may be cut in two. -/
theorem Layout.DistinctNames.split {front back : List Slot}
    (distinct : (Layout.sequence (front ++ back)).DistinctNames) :
    (Layout.sequence front).DistinctNames ∧ (Layout.sequence back).DistinctNames := by
  induction front with
  | nil => exact ⟨⟨trivial, trivial⟩, distinct⟩
  | cons slot rest ih =>
    obtain ⟨⟨here, -⟩, behind⟩ := ih distinct.rest
    refine ⟨⟨⟨fun name listed later => ?_, here⟩, ?_⟩, behind⟩
    · apply distinct.1.1 name listed
      change name ∈ namesOfSlots (rest ++ back)
      rw [namesOfSlots_append]
      exact List.mem_append_left _ later
    · apply everywhereInSlots_iff.mpr
      intro other member layout same
      exact distinct.2.of_mem (List.mem_append_left _ member) same

section Alternatives

variable {discriminant : Text} {cases : List (Integer × Layout)} {otherwise : Option Layout}
  {layout : Layout}

theorem mergedNames_subset_cases {key : Integer} (member : (key, layout) ∈ cases) :
    layout.mergedNames ⊆ mergedNamesOfCases cases := by
  induction cases with
  | nil => cases member
  | cons entry rest ih =>
    rw [mergedNamesOfCases]
    rcases List.mem_cons.mp member with rfl | member
    · exact List.subset_append_left _ _
    · exact List.Subset.trans (ih member) (List.subset_append_right _ _)

/-- What an alternative may merge, its branch may. -/
theorem Layout.Alternative.mergedNames_subset (alternative : Alternative cases otherwise layout) :
    layout.mergedNames ⊆ (Layout.branch discriminant cases otherwise).mergedNames := by
  rcases alternative with ⟨key, member⟩ | rfl
  · have within := mergedNames_subset_cases member
    cases otherwise <;> exact List.Subset.trans within (List.subset_append_left _ _)
  · exact List.subset_append_right _ _

end Alternatives

end BitLayout
