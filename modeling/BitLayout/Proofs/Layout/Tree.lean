import BitLayout.Layout.WellFormed

/-!
# Layouts as trees

A layout is a tree whose children are the layouts in its slots, its element or its alternatives. An
induction over this tree reaches every layout that decoding or encoding can come to, because a
branch only ever chooses one of its alternatives.

## Main definitions

* `Slot.layout?`, `Layout.Alternative`: the children of a sequence and of a branch
* `Layout.Everywhere`: a property of a layout and of everything below it

## Main results

* `Layout.induction`: induction over the tree
* `Layout.alternative_of_select`: a branch chooses an alternative
* `Layout.Everywhere.mono`: a property everywhere implies a weaker one everywhere
-/

namespace BitLayout

/-- The layout in a slot. -/
def Slot.layout? : Slot → Option Layout
  | .named _ layout => some layout
  | .embedded layout => some layout
  | .padding layout _ => some layout
  | .foreign .. => none

/-- One of the layouts among which a branch chooses. -/
def Layout.Alternative (cases : List (Integer × Layout)) (otherwise : Option Layout)
    (layout : Layout) : Prop :=
  (∃ key, (key, layout) ∈ cases) ∨ otherwise = some layout

theorem Layout.alternative_of_select {cases : List (Integer × Layout)} {otherwise : Option Layout}
    {key : Integer} {layout : Layout} (chosen : select cases otherwise key = some layout) :
    Alternative cases otherwise layout := by
  induction cases with
  | nil => exact Or.inr chosen
  | cons entry rest ih =>
    obtain ⟨k, first⟩ := entry
    rw [select] at chosen
    split at chosen
    · cases chosen
      exact Or.inl ⟨k, List.mem_cons_self⟩
    · refine (ih chosen).imp_left fun ⟨k', member⟩ => ?_
      exact ⟨k', List.mem_cons_of_mem _ member⟩

/-- A branch falls back on what is left if no case matches. -/
theorem Layout.select_eq_or {cases : List (Integer × Layout)} {otherwise : Option Layout}
    {key : Integer} : select cases otherwise key = (select cases none key).or otherwise := by
  induction cases with
  | nil => rfl
  | cons entry rest ih =>
    obtain ⟨k, layout⟩ := entry
    rw [select, select]
    split
    · rfl
    · exact ih

/-- Induction over the tree of a layout. -/
@[elab_as_elim]
theorem Layout.induction {P : Layout → Prop}
    (abstract : P .abstract)
    (sequence : ∀ slots, (∀ slot ∈ slots, ∀ layout, slot.layout? = some layout → P layout) →
      P (.sequence slots))
    (array : ∀ length element, P element → P (.array length element))
    (branch : ∀ discriminant cases otherwise,
      (∀ layout, Alternative cases otherwise layout → P layout) →
      P (.branch discriminant cases otherwise))
    (bitField : ∀ width, P (.bitField width))
    (wideField : ∀ width, P (.wideField width))
    (byteSlice : ∀ length, P (.byteSlice length))
    (text : ∀ length encoding, P (.text length encoding))
    (padding : ∀ width, P (.padding width))
    (layout : Layout) : P layout := by
  -- What the recursor asks for besides layouts: slots, lists of slots, cases, optional layouts.
  refine @Layout.rec P (fun slot => ∀ layout, slot.layout? = some layout → P layout)
    (fun slots => ∀ slot ∈ slots, ∀ layout, slot.layout? = some layout → P layout)
    (fun cases => ∀ key layout, (key, layout) ∈ cases → P layout)
    (fun otherwise => ∀ layout, otherwise = some layout → P layout) (fun entry => P entry.2)
    abstract sequence array ?_ bitField wideField byteSlice text padding
    ?_ ?_ ?_ ?_ ?_ ?_ ?_ ?_ ?_ ?_ ?_ layout
  · intro discriminant cases otherwise inCases inOtherwise
    refine branch discriminant cases otherwise fun layout alternative => ?_
    exact alternative.elim (fun ⟨key, member⟩ => inCases key layout member) (inOtherwise layout)
  -- One kind of slot after the other, then lists of slots, cases and the default.
  · intro name layout holds _ same
    exact Option.some.inj same ▸ holds
  · intro layout holds _ same
    exact Option.some.inj same ▸ holds
  · intro layout label holds _ same
    exact Option.some.inj same ▸ holds
  · intro typeName written _ same
    cases same
  · intro slot member
    cases member
  · intro slot rest first others
    exact List.forall_mem_cons.mpr ⟨first, others⟩
  · intro key layout member
    cases member
  · intro entry rest first others key layout member
    rcases List.mem_cons.mp member with rfl | member
    · exact first
    · exact others key layout member
  · intro layout same
    cases same
  · intro layout holds _ same
    exact Option.some.inj same ▸ holds
  · intro key layout holds
    exact holds

section Everywhere

variable (P : Layout → Prop)

mutual

/-- Whether a layout and all layouts below it have a property. -/
def Layout.Everywhere : Layout → Prop
  | .sequence slots => P (.sequence slots) ∧ EverywhereInSlots slots
  | .array length element => P (.array length element) ∧ element.Everywhere
  | .branch discriminant cases otherwise =>
    P (.branch discriminant cases otherwise) ∧ EverywhereInCases cases ∧
      match otherwise with
      | none => True
      | some layout => layout.Everywhere
  | layout => P layout

/-- Whether the layouts in slots and all layouts below them have a property. -/
def EverywhereInSlots : List Slot → Prop
  | [] => True
  | .named _ layout :: rest => layout.Everywhere ∧ EverywhereInSlots rest
  | .embedded layout :: rest => layout.Everywhere ∧ EverywhereInSlots rest
  | .padding layout _ :: rest => layout.Everywhere ∧ EverywhereInSlots rest
  | .foreign .. :: rest => EverywhereInSlots rest

/-- Whether the layouts of cases and all layouts below them have a property. -/
def EverywhereInCases : List (Integer × Layout) → Prop
  | [] => True
  | (_, layout) :: rest => layout.Everywhere ∧ EverywhereInCases rest

end

end Everywhere

variable {P : Layout → Prop} {cases : List (Integer × Layout)} {otherwise : Option Layout}
  {discriminant : Text} {layout : Layout}

theorem Layout.Everywhere.here (everywhere : layout.Everywhere P) : P layout := by
  cases layout with
  | sequence | array => exact everywhere.1
  | branch _ _ otherwise => cases otherwise <;> exact everywhere.1
  | abstract | bitField | wideField | byteSlice | text | padding => exact everywhere

theorem everywhereInSlots_iff {slots : List Slot} :
    EverywhereInSlots P slots ↔
      ∀ slot ∈ slots, ∀ layout, slot.layout? = some layout → layout.Everywhere P := by
  induction slots with
  | nil => exact ⟨fun _ => by simp, fun _ => trivial⟩
  | cons slot rest ih =>
    rw [List.forall_mem_cons, ← ih]
    cases slot <;> simp [EverywhereInSlots, Slot.layout?]

theorem EverywhereInSlots.of_mem {slots : List Slot} (everywhere : EverywhereInSlots P slots)
    {slot : Slot} (member : slot ∈ slots) (same : slot.layout? = some layout) :
    layout.Everywhere P :=
  everywhereInSlots_iff.mp everywhere slot member layout same

theorem everywhereInCases_iff :
    EverywhereInCases P cases ↔ ∀ key layout, (key, layout) ∈ cases → layout.Everywhere P := by
  induction cases with
  | nil => exact ⟨fun _ => by simp, fun _ => trivial⟩
  | cons entry rest ih =>
    obtain ⟨key, layout⟩ := entry
    rw [EverywhereInCases, ih]
    constructor
    · rintro ⟨first, others⟩ key' layout' member
      rcases List.mem_cons.mp member with same | member
      · cases same
        exact first
      · exact others key' layout' member
    · intro all
      exact ⟨all key layout List.mem_cons_self,
        fun key' layout' member => all key' layout' (List.mem_cons_of_mem _ member)⟩

theorem Layout.Everywhere.alternative
    (everywhere : (Layout.branch discriminant cases otherwise).Everywhere P)
    (alternative : Alternative cases otherwise layout) : layout.Everywhere P := by
  rcases alternative with ⟨key, member⟩ | rfl
  · have inCases : EverywhereInCases P cases := by cases otherwise <;> exact everywhere.2.1
    exact everywhereInCases_iff.mp inCases key layout member
  · exact everywhere.2.2

/-- A property that follows from two others follows everywhere. -/
theorem Layout.Everywhere.mono₂ {Q R : Layout → Prop}
    (implies : ∀ layout, P layout → Q layout → R layout) (first : layout.Everywhere P)
    (second : layout.Everywhere Q) : layout.Everywhere R := by
  induction layout using Layout.induction with
  | sequence slots ih =>
    obtain ⟨here, below⟩ := first
    obtain ⟨here', below'⟩ := second
    refine ⟨implies _ here here', everywhereInSlots_iff.mpr fun slot member layout same => ?_⟩
    exact ih slot member layout same (below.of_mem member same) (below'.of_mem member same)
  | array length element ih => exact ⟨implies _ first.1 second.1, ih first.2 second.2⟩
  | branch discriminant cases otherwise ih =>
    have each := fun layout (alternative : Alternative cases otherwise layout) =>
      ih layout alternative (first.alternative alternative) (second.alternative alternative)
    -- Both forms of a branch ask for its cases; only the one with a default asks for more.
    have inCases : EverywhereInCases R cases :=
      everywhereInCases_iff.mpr fun key layout member => each layout (Or.inl ⟨key, member⟩)
    cases otherwise with
    | none => exact ⟨implies _ first.1 second.1, inCases, trivial⟩
    | some layout => exact ⟨implies _ first.1 second.1, inCases, each layout (Or.inr rfl)⟩
  | abstract | bitField | wideField | byteSlice | text | padding => exact implies _ first second

/-- A property that follows from another one follows everywhere. -/
theorem Layout.Everywhere.mono {Q : Layout → Prop} (implies : ∀ layout, P layout → Q layout)
    (everywhere : layout.Everywhere P) : layout.Everywhere Q :=
  everywhere.mono₂ (fun layout here _ => implies layout here) everywhere

theorem Integer.IsAtLeast.le_toInt {bound : Int} {n : Integer} (least : n.IsAtLeast bound) :
    bound ≤ n.toInt := by
  cases n with
  | number n => exact least
  | truth b => exact least.elim

theorem Integer.IsAtLeast.mono {bound lower : Int} {n : Integer} (least : n.IsAtLeast bound)
    (below : lower ≤ bound) : n.IsAtLeast lower := by
  cases n with
  | number n => exact Int.le_trans below least
  | truth b => exact least.elim

theorem Integer.IsAtLeast.eq_of_toInt {bound : Int} {m n : Integer} (least : m.IsAtLeast bound)
    (least' : n.IsAtLeast bound) (same : m.toInt = n.toInt) : m = n := by
  cases m with
  | number m =>
    cases n with
    | number n => exact congrArg Integer.number same
    | truth b => exact least'.elim
  | truth b => exact least.elim

theorem WellFormedSlots.of_mem {slots : List Slot} (wellFormed : WellFormedSlots slots) {slot : Slot}
    (member : slot ∈ slots) (same : slot.layout? = some layout) : layout.WellFormed := by
  induction slots with
  | nil => cases member
  | cons first rest ih =>
    rcases List.mem_cons.mp member with rfl | member
    · cases slot with
      | named =>
        rw [← Option.some.inj same]
        exact wellFormed.1.2.2
      | embedded | padding =>
        rw [← Option.some.inj same]
        exact wellFormed.1.2
      | foreign => cases same
    · exact ih wellFormed.2 member

theorem wellFormedSlots_append {front back : List Slot} :
    WellFormedSlots (front ++ back) ↔ WellFormedSlots front ∧ WellFormedSlots back := by
  induction front with
  | nil => simp [WellFormedSlots]
  | cons slot rest ih =>
    rw [List.cons_append, WellFormedSlots, WellFormedSlots, ih, and_assoc]

/-- A list with an element at a position is what comes before, the element and what comes behind. -/
theorem eq_take_append_of_getElem? {α : Type} {list : List α} {index : Nat} {a : α}
    (there : list[index]? = some a) : list = list.take index ++ a :: list.drop (index + 1) := by
  obtain ⟨within, same⟩ := List.getElem?_eq_some_iff.mp there
  rw [← same, ← List.drop_eq_getElem_cons within, List.take_append_drop]

/-- Well-formed slots may be cut at one of them. -/
theorem WellFormedSlots.cut {slots : List Slot} (wellFormed : WellFormedSlots slots) {index : Nat}
    {slot : Slot} (there : slots[index]? = some slot) :
    WellFormedSlots (slots.take index) ∧ slot.WellFormed ∧
      WellFormedSlots (slots.drop (index + 1)) := by
  rw [eq_take_append_of_getElem? there] at wellFormed
  exact wellFormedSlots_append.mp wellFormed

theorem wellFormedCases_append {front back : List (Integer × Layout)} :
    WellFormedCases (front ++ back) ↔ WellFormedCases front ∧ WellFormedCases back := by
  induction front with
  | nil => simp [WellFormedCases]
  | cons entry rest ih =>
    rw [List.cons_append, WellFormedCases, WellFormedCases, ih, and_assoc, and_assoc]

theorem wellFormedCases_iff :
    WellFormedCases cases ↔ ∀ entry ∈ cases, entry.1.IsKey ∧ entry.2.WellFormed := by
  induction cases with
  | nil => simp [WellFormedCases]
  | cons entry rest ih => rw [WellFormedCases, ih, List.forall_mem_cons, and_assoc]

theorem WellFormedCases.of_mem (wellFormed : WellFormedCases cases) {key : Integer}
    (member : (key, layout) ∈ cases) : layout.WellFormed :=
  (wellFormedCases_iff.mp wellFormed _ member).2

theorem Layout.wellFormed_branch_iff :
    (branch discriminant cases otherwise).WellFormed ↔
      discriminant ≠ [] ∧ (cases.map fun (key, _) => key.toInt).Nodup ∧ WellFormedCases cases ∧
        ∀ layout, otherwise = some layout → layout.WellFormed := by
  cases otherwise <;> simp [WellFormed]

theorem Layout.WellFormed.alternative
    (wellFormed : (Layout.branch discriminant cases otherwise).WellFormed)
    (alternative : Alternative cases otherwise layout) : layout.WellFormed := by
  obtain ⟨-, -, inCases, inOtherwise⟩ := wellFormed_branch_iff.mp wellFormed
  rcases alternative with ⟨key, member⟩ | same
  · exact inCases.of_mem member
  · exact inOtherwise layout same

end BitLayout
