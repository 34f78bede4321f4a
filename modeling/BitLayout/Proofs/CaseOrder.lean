import BitLayout.Proofs.Embedding
import BitLayout.Proofs.Layout.Decidable
import BitLayout.Proofs.Layout.Size
import Mathlib

/-!
# The order of cases

A branch takes the first of its cases with the number that it looks for. The cases of a well-formed
branch have different numbers, so there is only one to take, whatever their order. The size of a branch
is the size of all its alternatives, in whatever order they are measured.

So cases may be reordered one branch after another, at any depth: each time the layout reads and writes
as before, with the same failures, and has the same size or none.

## Main definitions

* `Layout.Reorders`: one branch of a layout lists its cases in another order
* `Layout.Interchangeable`: layouts that read, write and measure alike

## Main results

* `Layout.select_of_perm`: the order of cases does not matter to the choice
* `Layout.Interchangeable.branch`, and so on: layouts with interchangeable parts are interchangeable
* `Layout.Reorders.interchangeable`: reordering the cases of one branch
* `Layout.same_outcomes_of_reorders`: reordering the cases of any branches
-/

namespace BitLayout

/-- One branch, the layout itself or below it, lists its cases in another order. Padding has no branch
below it. -/
inductive Layout.Reorders : Layout → Layout → Prop
  | cases {discriminant : Text} {cases cases' : List (Integer × Layout)} {otherwise : Option Layout}
    (perm : cases.Perm cases') :
    Reorders (.branch discriminant cases otherwise) (.branch discriminant cases' otherwise)
  | case {discriminant : Text} {front back : List (Integer × Layout)} {otherwise : Option Layout}
    {key : Integer} {layout layout' : Layout} (below : Reorders layout layout') :
    Reorders (.branch discriminant (front ++ (key, layout) :: back) otherwise)
      (.branch discriminant (front ++ (key, layout') :: back) otherwise)
  | otherwise {discriminant : Text} {cases : List (Integer × Layout)} {layout layout' : Layout}
    (below : Reorders layout layout') :
    Reorders (.branch discriminant cases (some layout)) (.branch discriminant cases (some layout'))
  | element {length : Length} {layout layout' : Layout} (below : Reorders layout layout') :
    Reorders (.array length layout) (.array length layout')
  | named {front back : List Slot} {name : Text} {layout layout' : Layout}
    (below : Reorders layout layout') :
    Reorders (.sequence (front ++ .named name layout :: back))
      (.sequence (front ++ .named name layout' :: back))
  | embedded {front back : List Slot} {layout layout' : Layout} (below : Reorders layout layout') :
    Reorders (.sequence (front ++ .embedded layout :: back))
      (.sequence (front ++ .embedded layout' :: back))

/-- Layouts of one sort that read, write and measure alike. -/
structure Layout.Interchangeable (layout layout' : Layout) : Prop where
  kind : layout.kind = layout'.kind
  decode : layout.decode = layout'.decode
  encode : ∀ memory, layout.encode memory = layout'.encode memory
  bits : ∀ size, layout.encodedBits = .ok size ↔ layout'.encodedBits = .ok size

/-- Among cases with different numbers the order does not matter to the choice. -/
theorem Layout.select_of_perm {cases cases' : List (Integer × Layout)} {otherwise : Option Layout}
    (perm : cases.Perm cases') (distinct : (cases.map fun (key, _) => key.toInt).Nodup) (key : Integer) :
    select cases otherwise key = select cases' otherwise key := by
  induction perm with
  | nil => rfl
  | cons entry _ ih =>
    obtain ⟨k, layout⟩ := entry
    rw [select, select, ih (List.nodup_cons.mp distinct).2]
  | swap first second rest =>
    obtain ⟨k, layout⟩ := first
    obtain ⟨k', layout'⟩ := second
    have apart : k'.toInt ≠ k.toInt := by
      have different := (List.nodup_cons.mp distinct).1
      rw [List.map_cons, List.mem_cons, not_or] at different
      exact different.1
    simp only [select, Integer.same, beq_iff_eq]
    -- The number cannot be that of both.
    split_ifs with one other
    · exact absurd (one.trans other.symm) apart
    all_goals rfl
  | trans perm _ ih ih' =>
    exact (ih distinct).trans (ih' ((perm.map _).nodup_iff.mp distinct))

namespace Layout.Interchangeable

variable {layout layout' : Layout}

theorem refl (layout : Layout) : layout.Interchangeable layout :=
  ⟨rfl, rfl, fun _ => rfl, fun _ => Iff.rfl⟩

theorem symm (same : layout.Interchangeable layout') : layout'.Interchangeable layout :=
  ⟨same.kind.symm, same.decode.symm, fun memory => (same.encode memory).symm,
    fun size => (same.bits size).symm⟩

theorem trans {layout'' : Layout} (first : layout.Interchangeable layout')
    (second : layout'.Interchangeable layout'') : layout.Interchangeable layout'' :=
  ⟨first.kind.trans second.kind, first.decode.trans second.decode,
    fun memory => (first.encode memory).trans (second.encode memory),
    fun size => (first.bits size).trans (second.bits size)⟩

/-- Arrays of interchangeable elements are interchangeable. -/
theorem array (same : layout.Interchangeable layout') (length : Length) :
    (Layout.array length layout).Interchangeable (.array length layout') := by
  refine ⟨rfl, ?_, fun memory => ?_, fun size => ?_⟩
  · funext scope r
    rw [Layout.decode, Layout.decode, same.decode]
  · funext value scope w
    rw [Layout.encode, Layout.encode, same.encode memory]
  · simp only [encodedBits_array_eq_ok_iff, same.bits]

/-- What is done with a choice is done with an interchangeable one alike. -/
theorem elim_eq {α : Type} {choice choice' : Option Layout}
    (related : Option.Rel Interchangeable choice choice') (missing : α) {use : Layout → α}
    (same : ∀ layout layout', layout.Interchangeable layout' → use layout = use layout') :
    choice.elim missing use = choice'.elim missing use := by
  cases related with
  | none => rfl
  | some related => exact same _ _ related

/-- The alternatives of a branch are as large as those that they are interchangeable with. -/
theorem measured {cases cases' : List (Integer × Layout)} {otherwise otherwise' : Option Layout}
    {size : Integer}
    (forward : ∀ layout, Alternative cases otherwise layout →
      ∃ layout', Alternative cases' otherwise' layout' ∧ layout.Interchangeable layout')
    (backward : ∀ layout', Alternative cases' otherwise' layout' →
      ∃ layout, Alternative cases otherwise layout ∧ layout'.Interchangeable layout)
    (measured : (∃ layout, Alternative cases otherwise layout) ∧
      ∀ layout, Alternative cases otherwise layout → layout.encodedBits = .ok size) :
    (∃ layout', Alternative cases' otherwise' layout') ∧
      ∀ layout', Alternative cases' otherwise' layout' → layout'.encodedBits = .ok size := by
  obtain ⟨⟨layout, alternative⟩, all⟩ := measured
  obtain ⟨layout', alternative', -⟩ := forward layout alternative
  refine ⟨⟨layout', alternative'⟩, fun other' member' => ?_⟩
  obtain ⟨other, member, same⟩ := backward other' member'
  exact (same.bits size).mpr (all other member)

/-- Branches are interchangeable if they choose interchangeable layouts, and if each alternative of one
is interchangeable with some alternative of the other. -/
theorem branch {discriminant : Text} {cases cases' : List (Integer × Layout)}
    {otherwise otherwise' : Option Layout}
    (wellFormed : (Layout.branch discriminant cases otherwise).WellFormed)
    (wellFormed' : (Layout.branch discriminant cases' otherwise').WellFormed)
    (chosen : ∀ key,
      Option.Rel Interchangeable (select cases otherwise key) (select cases' otherwise' key))
    (forward : ∀ layout, Alternative cases otherwise layout →
      ∃ layout', Alternative cases' otherwise' layout' ∧ layout.Interchangeable layout')
    (backward : ∀ layout', Alternative cases' otherwise' layout' →
      ∃ layout, Alternative cases otherwise layout ∧ layout'.Interchangeable layout) :
    (Layout.branch discriminant cases otherwise).Interchangeable
      (.branch discriminant cases' otherwise') := by
  refine ⟨rfl, ?_, fun memory => ?_, fun size => ?_⟩
  · funext scope r
    cases scope with
    | none => rw [Layout.decode, Layout.decode]
    | some record =>
      rw [decode_branch_eq, decode_branch_eq]
      congr 1
      funext key
      exact elim_eq (chosen key) _ fun _ _ same => by rw [same.decode]
  · funext value scope w
    cases scope with
    | none => rw [Layout.encode, Layout.encode]
    | some record =>
      rw [encode_branch_eq, encode_branch_eq]
      congr 1
      funext key
      exact elim_eq (chosen key) _ fun _ _ same => by rw [same.encode memory]
  · rw [encodedBits_branch_eq_ok_iff wellFormed, encodedBits_branch_eq_ok_iff wellFormed']
    exact ⟨measured forward backward, measured backward forward⟩

/-- Sequences are interchangeable if this holds of the slots from some position on. -/
theorem sequence {front back back' : List Slot}
    (read : ∀ record r, decodeSlots back record r = decodeSlots back' record r)
    (written : ∀ memory record w, encodeSlots memory back record w = encodeSlots memory back' record w)
    (bits : ∀ size, bitsOfSlots back = .ok size ↔ bitsOfSlots back' = .ok size) :
    (Layout.sequence (front ++ back)).Interchangeable (.sequence (front ++ back')) := by
  refine ⟨rfl, ?_, fun memory => ?_, fun size => ?_⟩
  · funext scope r
    rw [Layout.decode, Layout.decode, decodeSlots_append, decodeSlots_append]
    simp only [read]
  · funext value scope w
    cases value with
    | dict record =>
      rw [Layout.encode, Layout.encode, encodeSlots_append, encodeSlots_append]
      congr 1
      funext w
      exact written memory record w
    | _ =>
      rw [Layout.encode, Layout.encode]
      all_goals
        intro record same
        cases same
  · rw [encodedBits, encodedBits]
    induction front generalizing size with
    | nil => exact bits size
    | cons slot rest ih =>
      simp only [List.cons_append, bitsOfSlots_cons_eq_ok_iff, ih]

theorem named (same : layout.Interchangeable layout') (front back : List Slot) (name : Text) :
    (Layout.sequence (front ++ .named name layout :: back)).Interchangeable
      (.sequence (front ++ .named name layout' :: back)) := by
  refine sequence (fun record r => ?_) (fun memory record w => ?_) (fun size => ?_)
  · rw [decodeSlots, decodeSlots, same.decode]
  · rw [encodeSlots, encodeSlots, same.encode memory]
  · simp [bitsOfSlots_cons_eq_ok_iff, Slot.layout?, same.bits]

theorem embedded (same : layout.Interchangeable layout') (front back : List Slot) :
    (Layout.sequence (front ++ .embedded layout :: back)).Interchangeable
      (.sequence (front ++ .embedded layout' :: back)) := by
  refine sequence (fun record r => ?_) (fun memory record w => ?_) (fun size => ?_)
  · rw [decodeSlots, decodeSlots, same.decode, same.kind]
  · rw [encodeSlots, encodeSlots, same.encode memory]
  · simp [bitsOfSlots_cons_eq_ok_iff, Slot.layout?, same.bits]

end Layout.Interchangeable

namespace Layout.Reorders

variable {layout layout' : Layout}

/-- A layout with cases to reorder is no padding. -/
theorem not_isPadding (reorders : layout.Reorders layout') :
    layout.isPadding = false ∧ layout'.isPadding = false := by
  cases reorders <;> exact ⟨rfl, rfl⟩

theorem wellFormed (reorders : layout.Reorders layout') (wellFormed : layout.WellFormed) :
    layout'.WellFormed := by
  induction reorders with
  | cases perm =>
    obtain ⟨named, distinct, inCases, inOtherwise⟩ := wellFormed_branch_iff.mp wellFormed
    have inCases' := fun entry member =>
      wellFormedCases_iff.mp inCases entry (perm.mem_iff.mpr member)
    exact wellFormed_branch_iff.mpr ⟨named, (perm.map _).nodup_iff.mp distinct,
      wellFormedCases_iff.mpr inCases', inOtherwise⟩
  | case below ih =>
    obtain ⟨named, distinct, inCases, inOtherwise⟩ := wellFormed_branch_iff.mp wellFormed
    obtain ⟨before, ⟨isKey, inCase, behind⟩⟩ := wellFormedCases_append.mp inCases
    exact wellFormed_branch_iff.mpr ⟨named, by simpa using distinct,
      wellFormedCases_append.mpr ⟨before, isKey, ih inCase, behind⟩, inOtherwise⟩
  | otherwise below ih => exact ⟨wellFormed.1, wellFormed.2.1, wellFormed.2.2.1, ih wellFormed.2.2.2⟩
  | element below ih => exact ⟨wellFormed.1, ih wellFormed.2⟩
  | named below ih =>
    obtain ⟨before, ⟨named, -, inSlot⟩, behind⟩ := wellFormedSlots_append.mp wellFormed
    exact wellFormedSlots_append.mpr ⟨before, ⟨named, below.not_isPadding.2, ih inSlot⟩, behind⟩
  | embedded below ih =>
    obtain ⟨before, ⟨-, inSlot⟩, behind⟩ := wellFormedSlots_append.mp wellFormed
    exact wellFormedSlots_append.mpr ⟨before, ⟨below.not_isPadding.2, ih inSlot⟩, behind⟩

section Alternatives

variable {front back : List (Integer × Layout)} {otherwise : Option Layout} {key : Integer}

theorem rel_refl (choice : Option Layout) : Option.Rel Interchangeable choice choice := by
  cases choice with
  | none => exact .none
  | some layout => exact .some (.refl layout)

/-- Where one case has an interchangeable layout, the choices are interchangeable. -/
theorem rel_select (same : layout.Interchangeable layout') (number : Integer) :
    Option.Rel Interchangeable (select (front ++ (key, layout) :: back) otherwise number)
      (select (front ++ (key, layout') :: back) otherwise number) := by
  induction front with
  | nil =>
    rw [List.nil_append, List.nil_append, select, select]
    split
    · exact .some same
    · exact rel_refl _
  | cons entry rest ih =>
    rw [List.cons_append, List.cons_append, select, select]
    split
    · exact rel_refl _
    · exact ih

theorem exists_alternative (same : layout.Interchangeable layout') {part : Layout}
    (alternative : Alternative (front ++ (key, layout) :: back) otherwise part) :
    ∃ part', Alternative (front ++ (key, layout') :: back) otherwise part' ∧
      part.Interchangeable part' := by
  rcases alternative with ⟨number, member⟩ | default
  · rcases List.mem_append.mp member with inFront | member
    · exact ⟨part, Or.inl ⟨number, List.mem_append_left _ inFront⟩, .refl part⟩
    · rcases List.mem_cons.mp member with here | inBack
      · cases here
        exact ⟨layout', Or.inl ⟨key, by simp⟩, same⟩
      · exact ⟨part, Or.inl ⟨number, by simp [inBack]⟩, .refl part⟩
  · exact ⟨part, Or.inr default, .refl part⟩

end Alternatives

/-- Once the cases of one branch are reordered a layout reads, writes and measures as before. -/
theorem interchangeable (reorders : layout.Reorders layout') (wellFormed : layout.WellFormed) :
    layout.Interchangeable layout' := by
  -- Each constructor is a place below which something changes; the branch itself comes first.
  induction reorders with
  | @cases discriminant cases cases' otherwise perm =>
    have wellFormed' := Reorders.wellFormed (.cases perm) wellFormed
    have distinct := (wellFormed_branch_iff.mp wellFormed).2.1
    refine .branch wellFormed wellFormed' (fun key => ?_) ?_ ?_
    · rw [select_of_perm perm distinct key]
      exact rel_refl _
    · exact fun layout alternative => ⟨layout,
        alternative.imp_left fun ⟨key, member⟩ => ⟨key, perm.mem_iff.mp member⟩, .refl layout⟩
    · exact fun layout alternative => ⟨layout,
        alternative.imp_left fun ⟨key, member⟩ => ⟨key, perm.mem_iff.mpr member⟩, .refl layout⟩
  | case below ih =>
    have same := ih (wellFormed.alternative (Or.inl ⟨_, List.mem_append_right _ List.mem_cons_self⟩))
    exact .branch wellFormed (Reorders.wellFormed (.case below) wellFormed) (rel_select same)
      (fun _ => exists_alternative same) (fun _ => exists_alternative same.symm)
  | @otherwise discriminant cases layout layout' below ih =>
    have same := ih (wellFormed.alternative (Or.inr rfl))
    refine .branch wellFormed (Reorders.wellFormed (.otherwise below) wellFormed) (fun key => ?_)
      ?_ ?_
    · have choice (default : Layout) :
          select cases (some default) key = (select cases none key).or (some default) := select_eq_or
      rw [choice, choice]
      cases select cases none key with
      | none => exact .some same
      | some layout => exact .some (.refl layout)
    · rintro part (inCases | default)
      · exact ⟨part, Or.inl inCases, .refl part⟩
      · cases default
        exact ⟨layout', Or.inr rfl, same⟩
    · rintro part (inCases | default)
      · exact ⟨part, Or.inl inCases, .refl part⟩
      · cases default
        exact ⟨layout, Or.inr rfl, same.symm⟩
  | element below ih => exact (ih wellFormed.2).array _
  | named below ih =>
    have inSlot := (wellFormedSlots_append.mp wellFormed).2.1
    exact (ih inSlot.2.2).named _ _ _
  | embedded below ih =>
    have inSlot := (wellFormedSlots_append.mp wellFormed).2.1
    exact (ih inSlot.2).embedded _ _

end Layout.Reorders

/-- The same holds once the cases of any number of branches are reordered. -/
theorem Layout.interchangeable_of_reorders {layout layout' : Layout} (wellFormed : layout.WellFormed)
    (reordered : Relation.ReflTransGen Reorders layout layout') :
    layout'.WellFormed ∧ layout.Interchangeable layout' := by
  induction reordered with
  | refl => exact ⟨wellFormed, .refl layout⟩
  | tail _ reorders ih =>
    obtain ⟨wellFormed_middle, same⟩ := ih
    exact ⟨reorders.wellFormed wellFormed_middle,
      same.trans (reorders.interchangeable wellFormed_middle)⟩

namespace Layout

/-- The order of cases does not matter. Two well-formed layouts that differ in the order of the cases
of their branches, at any depth, decode every byte string to the same value or stop with the same
failure, and encode every value to the same bytes or refuse it with the same failure, whatever room
there is. They have the same size, or neither has one because it depends on the data. -/
theorem same_outcomes_of_reorders {layout layout' : Layout} (wellFormed : layout.WellFormed)
    (reordered : Relation.ReflTransGen Reorders layout layout') :
    (∀ data strict, layout.decodeBytes data strict = layout'.decodeBytes data strict) ∧
    (∀ memory value, layout.encodeWithin memory value = layout'.encodeWithin memory value) ∧
    ((∃ size, layout.encodedBits = .ok size ∧ layout'.encodedBits = .ok size) ∨
      ∃ error error', layout.encodedBits = .error error ∧ layout'.encodedBits = .error error' ∧
        error.DependsOnData ∧ error'.DependsOnData) := by
  obtain ⟨wellFormed', same⟩ := interchangeable_of_reorders wellFormed reordered
  refine ⟨fun data strict => ?_, fun memory value => ?_, ?_⟩
  · rw [decodeBytes, decodeBytes, read, read, same.decode, same.kind]
  · rw [encodeWithin, encodeWithin, writeWithin, writeWithin, same.encode memory]
  · cases measured : layout.encodedBits with
    | ok size => exact Or.inl ⟨size, rfl, (same.bits size).mp measured⟩
    | error error =>
      cases measured' : layout'.encodedBits with
      | ok size => cases measured.symm.trans ((same.bits size).mpr measured')
      | error error' =>
        exact Or.inr ⟨error, error', rfl, rfl, dependsOnData_of_encodedBits wellFormed measured,
          dependsOnData_of_encodedBits wellFormed' measured'⟩

/-- Two goods, each of a sort with its weight or its price. -/
def goods (cases : List (Integer × Layout)) : Layout :=
  .array (.literal 2) (.sequence ([.named "sort" byte] ++ .embedded (.branch "sort" cases none) :: []))

/-- A weight for the first sort and a price for the second. -/
def weightOrPrice : List (Integer × Layout) :=
  [(0, .sequence [.named "weight" byte]), (1, .sequence [.named "price" byte])]

theorem same_outcomes_of_reorders_goods :
    (goods weightOrPrice).WellFormed ∧
      Relation.ReflTransGen Reorders (goods weightOrPrice) (goods weightOrPrice.reverse) ∧
      goods weightOrPrice ≠ goods weightOrPrice.reverse ∧
      (goods weightOrPrice.reverse).decodeBytes [0, 9, 1, 7] true =
        .ok (.list [.dict [(.text "sort", .int 0), (.text "weight", .int 9)],
          .dict [(.text "sort", .int 1), (.text "price", .int 7)]]) ∧
      (goods weightOrPrice.reverse).decodeBytes [0, 9, 2] true =
        .error (.located [.index 1] (.noMatchingCase "sort" 2)) ∧
      (goods weightOrPrice.reverse).encodedBits = .ok 32 := by
  have wellFormed : (goods weightOrPrice).WellFormed := by decide +kernel
  have reordered : Relation.ReflTransGen Reorders (goods weightOrPrice) (goods weightOrPrice.reverse) :=
    .single (.element (.embedded (.cases (List.reverse_perm _).symm)))
  obtain ⟨decoded, -, sizes⟩ := same_outcomes_of_reorders wellFormed reordered
  refine ⟨wellFormed, reordered, ?_, ?_, ?_, ?_⟩
  · have apart : (0 : Integer) ≠ 1 := by decide
    simp [goods, weightOrPrice, apart]
  · rw [← decoded]
    cbv
  · rw [← decoded]
    cbv
  · rcases sizes with ⟨size, measured, measured'⟩ | ⟨error, -, measured, -⟩
    · cases measured
      exact measured'
    · cases measured

end Layout

end BitLayout
