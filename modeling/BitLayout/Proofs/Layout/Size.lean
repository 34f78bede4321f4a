import BitLayout.Proofs.Layout.Tree
import BitLayout.Proofs.Outcome
import BitLayout.Size
import Mathlib

/-!
# The size of a layout

When a layout has a size. Slots add up, items multiply, and the alternatives of a branch have their
size in common. The sizes of well-formed layouts are counts, so `Layout.HasBits` and
`SlotsHaveBits` take them as natural numbers.

## Main definitions

* `Layout.HasBits`, `SlotsHaveBits`: the size of a layout and of slots, as a count
* `LayoutError.DependsOnData`: why a well-formed layout may have no size

## Main results

* `bitsOfSlots_cons_eq_ok_iff`, `encodedBits_array_eq_ok_iff`, `encodedBits_branch`, and so on: the
  size of one layout by the sizes of its parts
* `Layout.isAtLeast_of_encodedBits`: sizes are counts
* `Layout.dependsOnData_of_encodedBits`: without a size, the size depends on the data
-/

namespace BitLayout

/-- The size of a layout, as a count of bits. -/
def Layout.HasBits (layout : Layout) (bits : Nat) : Prop :=
  ∃ size, layout.encodedBits = .ok size ∧ size.toInt = bits

/-- The size of slots one after another, as a count of bits. -/
def SlotsHaveBits (slots : List Slot) (bits : Nat) : Prop :=
  ∃ size, bitsOfSlots slots = .ok size ∧ size.toInt = bits

section Sizes

variable {size : Integer}

theorem bitsOfSlots_cons_eq_ok_iff {slot : Slot} {rest : List Slot} :
    bitsOfSlots (slot :: rest) = .ok size ↔
      ∃ layout first others, slot.layout? = some layout ∧ layout.encodedBits = .ok first ∧
        bitsOfSlots rest = .ok others ∧ .number (first.toInt + others.toInt) = size := by
  cases slot with
  | named name layout | embedded layout | padding layout label =>
    rw [bitsOfSlots]
    simp [bind_eq_ok_iff, Slot.layout?]
  | foreign typeName written => simp [bitsOfSlots, Slot.layout?]

theorem Length.expectLiteral_eq_ok_iff {kind : Layout.Kind} {length : Length} {count : Integer} :
    length.expectLiteral kind = .ok count ↔ length = .literal count := by
  cases length <;> simp [expectLiteral]

theorem encodedBits_array_eq_ok_iff {length : Length} {element : Layout} :
    (Layout.array length element).encodedBits = .ok size ↔
      ∃ count each, length = .literal count ∧ element.encodedBits = .ok each ∧
        .number (count.toInt * each.toInt) = size := by
  rw [Layout.encodedBits]
  simp [bind_eq_ok_iff, Length.expectLiteral_eq_ok_iff]

theorem encodedBits_byteSlice_eq_ok_iff {length : Length} :
    (Layout.byteSlice length).encodedBits = .ok size ↔
      ∃ count, length = .literal count ∧ eightfold count = size := by
  rw [Layout.encodedBits]
  simp [map_eq_ok_iff, Length.expectLiteral_eq_ok_iff]

theorem encodedBits_text_eq_ok_iff {length : Length} {encoding : Text} :
    (Layout.text length encoding).encodedBits = .ok size ↔
      ∃ count, length = .literal count ∧ eightfold count = size := by
  rw [Layout.encodedBits]
  simp [map_eq_ok_iff, Length.expectLiteral_eq_ok_iff]

/-- A common size is the size of each. -/
theorem toInt_eq_of_commonSize {discriminant : Text} {sizes : List Integer}
    (common : commonSize discriminant sizes = .ok size) : ∀ other ∈ sizes, other.toInt = size.toInt := by
  cases sizes with
  | nil => cases common
  | cons first rest =>
    rw [commonSize] at common
    split_ifs at common with same
    cases common
    intro other member
    rcases List.mem_cons.mp member with rfl | member
    · rfl
    · have equal := List.all_eq_true.mp same other member
      exact (beq_iff_eq.mp equal).symm

/-- A common size is one of the sizes. -/
theorem mem_of_commonSize {discriminant : Text} {sizes : List Integer}
    (common : commonSize discriminant sizes = .ok size) : size ∈ sizes := by
  cases sizes with
  | nil => cases common
  | cons first rest =>
    rw [commonSize] at common
    split_ifs at common
    cases common
    exact List.mem_cons_self

theorem sizesOfCases_cons_eq_ok_iff {key : Integer} {layout : Layout}
    {rest : List (Integer × Layout)} {sizes : List Integer} :
    sizesOfCases ((key, layout) :: rest) = .ok sizes ↔
      ∃ first others, layout.encodedBits = .ok first ∧ sizesOfCases rest = .ok others ∧
        first :: others = sizes := by
  rw [sizesOfCases]
  simp [bind_eq_ok_iff]

/-- The sizes of cases are the sizes of their layouts. -/
theorem mem_of_sizesOfCases {cases : List (Integer × Layout)} {sizes : List Integer}
    (sized : sizesOfCases cases = .ok sizes) :
    (∀ key layout, (key, layout) ∈ cases → ∃ size ∈ sizes, layout.encodedBits = .ok size) ∧
      ∀ size ∈ sizes, ∃ key layout, (key, layout) ∈ cases ∧ layout.encodedBits = .ok size := by
  induction cases generalizing sizes with
  | nil =>
    cases sized
    exact ⟨by simp, by simp⟩
  | cons entry rest ih =>
    obtain ⟨key, layout⟩ := entry
    obtain ⟨first, others, measured, sized_rest, rfl⟩ := sizesOfCases_cons_eq_ok_iff.mp sized
    obtain ⟨toSize, toCase⟩ := ih sized_rest
    constructor
    · intro key' layout' member
      rcases List.mem_cons.mp member with same | member
      · cases same
        exact ⟨first, List.mem_cons_self, measured⟩
      · obtain ⟨size, listed, measured'⟩ := toSize key' layout' member
        exact ⟨size, List.mem_cons_of_mem _ listed, measured'⟩
    · intro size listed
      rcases List.mem_cons.mp listed with rfl | listed
      · exact ⟨key, layout, List.mem_cons_self, measured⟩
      · obtain ⟨key', layout', member, measured'⟩ := toCase size listed
        exact ⟨key', layout', List.mem_cons_of_mem _ member, measured'⟩

/-- The size of a branch is the size of one of its alternatives and equal to those of all others. -/
theorem encodedBits_branch {discriminant : Text} {cases : List (Integer × Layout)}
    {otherwise : Option Layout}
    (measured : (Layout.branch discriminant cases otherwise).encodedBits = .ok size) :
    (∀ layout, Layout.Alternative cases otherwise layout →
        ∃ own, layout.encodedBits = .ok own ∧ own.toInt = size.toInt) ∧
      ∃ layout, Layout.Alternative cases otherwise layout ∧ layout.encodedBits = .ok size := by
  rw [Layout.encodedBits] at measured
  obtain ⟨sizes, sized, measured⟩ := bind_eq_ok_iff.mp measured
  obtain ⟨toSize, toCase⟩ := mem_of_sizesOfCases sized
  cases otherwise with
  | none =>
    refine ⟨?_, ?_⟩
    · rintro layout (⟨key, member⟩ | absurdity)
      · obtain ⟨own, listed, measured'⟩ := toSize key layout member
        exact ⟨own, measured', toInt_eq_of_commonSize measured own listed⟩
      · cases absurdity
    · obtain ⟨key, layout, member, measured'⟩ := toCase size (mem_of_commonSize measured)
      exact ⟨layout, Or.inl ⟨key, member⟩, measured'⟩
  | some default =>
    obtain ⟨last, measured_default, common⟩ := bind_eq_ok_iff.mp measured
    have equal := toInt_eq_of_commonSize common
    refine ⟨?_, ?_⟩
    · rintro layout (⟨key, member⟩ | same)
      · obtain ⟨own, listed, measured'⟩ := toSize key layout member
        exact ⟨own, measured', equal own (List.mem_append_left _ listed)⟩
      · cases same
        exact ⟨last, measured_default, equal last (by simp)⟩
    · rcases List.mem_append.mp (mem_of_commonSize common) with listed | listed
      · obtain ⟨key, layout, member, measured'⟩ := toCase size listed
        exact ⟨layout, Or.inl ⟨key, member⟩, measured'⟩
      · rw [List.mem_singleton.mp listed]
        exact ⟨default, Or.inr rfl, measured_default⟩

/-- The size of a well-formed layout is a number of at least zero. -/
theorem Layout.isAtLeast_of_encodedBits {layout : Layout} (wellFormed : layout.WellFormed)
    (measured : layout.encodedBits = .ok size) : size.IsAtLeast 0 := by
  induction layout using Layout.induction generalizing size with
  | abstract => exact wellFormed.elim
  | sequence slots ih =>
    rw [encodedBits] at measured
    induction slots generalizing size with
    | nil =>
      cases measured
      exact le_refl 0
    | cons slot rest ih_rest =>
      obtain ⟨layout, first, others, same, measured_first, measured_rest, rfl⟩ :=
        bitsOfSlots_cons_eq_ok_iff.mp measured
      obtain ⟨inSlot, inRest⟩ := List.forall_mem_cons.mp ih
      have low := inSlot layout same (wellFormed.of_mem List.mem_cons_self same) measured_first
      have high := ih_rest inRest wellFormed.2 measured_rest
      exact Int.add_nonneg low.le_toInt high.le_toInt
  | array length element ih =>
    obtain ⟨count, each, rfl, measured_element, rfl⟩ := encodedBits_array_eq_ok_iff.mp measured
    have each_nonneg := (ih wellFormed.2 measured_element).le_toInt
    exact Int.mul_nonneg (Integer.IsAtLeast.le_toInt wellFormed.1) each_nonneg
  | branch discriminant cases otherwise ih =>
    obtain ⟨layout, alternative, measured⟩ := (encodedBits_branch measured).2
    exact ih layout alternative (wellFormed.alternative alternative) measured
  | bitField width =>
    cases measured
    exact wellFormed.1.mono (by decide)
  | wideField width | padding width =>
    cases measured
    exact Integer.IsAtLeast.mono wellFormed (by decide)
  | byteSlice length =>
    obtain ⟨count, rfl, rfl⟩ := encodedBits_byteSlice_eq_ok_iff.mp measured
    exact Int.mul_nonneg (by decide) (Integer.IsAtLeast.le_toInt wellFormed)
  | text length encoding =>
    obtain ⟨count, rfl, rfl⟩ := encodedBits_text_eq_ok_iff.mp measured
    exact Int.mul_nonneg (by decide) (Integer.IsAtLeast.le_toInt wellFormed.1)

theorem Layout.nonneg_of_encodedBits {layout : Layout} (wellFormed : layout.WellFormed)
    (measured : layout.encodedBits = .ok size) : 0 ≤ size.toInt :=
  (isAtLeast_of_encodedBits wellFormed measured).le_toInt

end Sizes

section Branches

variable {cases : List (Integer × Layout)} {otherwise : Option Layout} {discriminant : Text}
  {size : Integer}

theorem sizesOfCases_of_forall
    (each : ∀ key layout, (key, layout) ∈ cases → layout.encodedBits = .ok size) :
    sizesOfCases cases = .ok (List.replicate cases.length size) := by
  induction cases with
  | nil => rfl
  | cons entry rest ih =>
    obtain ⟨key, layout⟩ := entry
    have measured := each key layout List.mem_cons_self
    have others := ih fun key layout member => each key layout (List.mem_cons_of_mem _ member)
    exact sizesOfCases_cons_eq_ok_iff.mpr ⟨size, _, measured, others, rfl⟩

theorem commonSize_replicate (count : Nat) :
    commonSize discriminant (List.replicate (count + 1) size) = .ok size := by
  have same : ∀ other ∈ List.replicate count size, size.same other = true := by
    intro other member
    rw [List.eq_of_mem_replicate member]
    exact beq_self_eq_true _
  rw [List.replicate_succ, commonSize, if_pos (List.all_eq_true.mpr same)]

/-- A well-formed branch has a size if it has alternatives and this is the size of all of them. -/
theorem encodedBits_branch_eq_ok_iff
    (wellFormed : (Layout.branch discriminant cases otherwise).WellFormed) :
    (Layout.branch discriminant cases otherwise).encodedBits = .ok size ↔
      (∃ layout, Layout.Alternative cases otherwise layout) ∧
        ∀ layout, Layout.Alternative cases otherwise layout → layout.encodedBits = .ok size := by
  constructor
  · intro measured
    obtain ⟨all, layout, alternative, measured_one⟩ := encodedBits_branch measured
    refine ⟨⟨layout, alternative⟩, fun other alternative' => ?_⟩
    obtain ⟨own, measured_own, same⟩ := all other alternative'
    -- Equal numbers are the same, since no size of a well-formed layout is a truth value.
    have number := Layout.isAtLeast_of_encodedBits (wellFormed.alternative alternative') measured_own
    have number' := Layout.isAtLeast_of_encodedBits (wellFormed.alternative alternative) measured_one
    rw [measured_own, number.eq_of_toInt number' same]
  · rintro ⟨⟨one, alternative⟩, all⟩
    have sized := sizesOfCases_of_forall fun key layout member => all layout (Or.inl ⟨key, member⟩)
    cases otherwise with
    | none =>
      obtain ⟨key, member⟩ := alternative.resolve_right nofun
      obtain ⟨count, length⟩ := Nat.exists_eq_add_of_lt (List.length_pos_of_mem member)
      rw [Layout.encodedBits, sized, length, Nat.zero_add]
      exact commonSize_replicate count
    | some default =>
      have measured := all default (Or.inr rfl)
      rw [Layout.encodedBits, sized]
      change (default.encodedBits >>= fun size' =>
        commonSize discriminant (List.replicate cases.length size ++ [size'])) = _
      rw [measured]
      change commonSize discriminant (List.replicate cases.length size ++ [size]) = _
      rw [← List.replicate_succ', commonSize_replicate]

end Branches

section Failures

variable {error : LayoutError}

/-- A size that depends on the data: a length that is in a field, or cases of different sizes. -/
def LayoutError.DependsOnData : LayoutError → Prop
  | .lengthInField .. => True
  | .casesDifferInSize _ => True
  | _ => False

theorem Length.dependsOnData_of_expectLiteral {kind : Layout.Kind} {length : Length}
    (failed : length.expectLiteral kind = .error error) : error.DependsOnData := by
  cases length with
  | literal count => cases failed
  | field name =>
    cases failed
    exact trivial

theorem dependsOnData_of_commonSize {discriminant : Text} {sizes : List Integer}
    (failed : commonSize discriminant sizes = .error error) : error.DependsOnData := by
  cases sizes with
  | nil =>
    cases failed
    exact trivial
  | cons size rest =>
    rw [commonSize] at failed
    split_ifs at failed
    cases failed
    exact trivial

theorem dependsOnData_of_bitsOfSlots {slots : List Slot}
    (each : ∀ slot ∈ slots, ∀ layout, slot.layout? = some layout → layout.WellFormed →
      layout.encodedBits = .error error → error.DependsOnData)
    (wellFormed : WellFormedSlots slots) (failed : bitsOfSlots slots = .error error) :
    error.DependsOnData := by
  induction slots with
  | nil => cases failed
  | cons slot rest ih =>
    obtain ⟨inSlot, inRest⟩ := List.forall_mem_cons.mp each
    cases slot with
    | named _ layout | embedded layout | padding layout _ =>
      rw [bitsOfSlots, bind_eq_error_iff] at failed
      rcases failed with failed | ⟨size, -, failed⟩
      · exact inSlot layout rfl (wellFormed.of_mem List.mem_cons_self rfl) failed
      · rcases bind_eq_error_iff.mp failed with failed | ⟨others, -, failed⟩
        · exact ih inRest wellFormed.2 failed
        · cases failed
    | foreign => exact wellFormed.1.elim

theorem dependsOnData_of_sizesOfCases {cases : List (Integer × Layout)}
    (each : ∀ key layout, (key, layout) ∈ cases → layout.encodedBits = .error error →
      error.DependsOnData)
    (failed : sizesOfCases cases = .error error) : error.DependsOnData := by
  induction cases with
  | nil => cases failed
  | cons entry rest ih =>
    obtain ⟨key, layout⟩ := entry
    rw [sizesOfCases, bind_eq_error_iff] at failed
    rcases failed with failed | ⟨size, -, failed⟩
    · exact each key layout List.mem_cons_self failed
    · rcases bind_eq_error_iff.mp failed with failed | ⟨others, -, failed⟩
      · exact ih (fun key layout member => each key layout (List.mem_cons_of_mem _ member)) failed
      · cases failed

/-- A well-formed layout has a size unless that depends on the data. -/
theorem Layout.dependsOnData_of_encodedBits {layout : Layout} (wellFormed : layout.WellFormed)
    (failed : layout.encodedBits = .error error) : error.DependsOnData := by
  induction layout using Layout.induction with
  | abstract => exact wellFormed.elim
  | sequence slots ih => exact dependsOnData_of_bitsOfSlots ih wellFormed failed
  | array length element ih =>
    rw [encodedBits, bind_eq_error_iff] at failed
    rcases failed with failed | ⟨count, -, failed⟩
    · exact length.dependsOnData_of_expectLiteral failed
    · rcases bind_eq_error_iff.mp failed with failed | ⟨size, -, failed⟩
      · exact ih wellFormed.2 failed
      · cases failed
  | branch discriminant cases otherwise ih =>
    rw [encodedBits, bind_eq_error_iff] at failed
    rcases failed with failed | ⟨sizes, -, failed⟩
    · refine dependsOnData_of_sizesOfCases (fun key layout member => ?_) failed
      have alternative : Alternative cases otherwise layout := Or.inl ⟨key, member⟩
      exact ih layout alternative (wellFormed.alternative alternative)
    · cases otherwise with
      | none => exact dependsOnData_of_commonSize failed
      | some default =>
        have alternative : Alternative cases (some default) default := Or.inr rfl
        rcases bind_eq_error_iff.mp failed with failed | ⟨size, -, failed⟩
        · exact ih default alternative (wellFormed.alternative alternative) failed
        · exact dependsOnData_of_commonSize failed
  | bitField | wideField | padding => cases failed
  | byteSlice length | text length encoding =>
    rw [encodedBits, map_eq_error_iff] at failed
    exact length.dependsOnData_of_expectLiteral failed

end Failures

section Counts

variable {bits : Nat}

/-- The first slot has its own size and the others have what is left. -/
theorem SlotsHaveBits.of_cons {slot : Slot} {rest : List Slot}
    (has : SlotsHaveBits (slot :: rest) bits) (wellFormed : WellFormedSlots (slot :: rest)) :
    ∃ layout first others, slot.layout? = some layout ∧ layout.HasBits first ∧
      SlotsHaveBits rest others ∧ bits = first + others := by
  obtain ⟨size, measured, total⟩ := has
  obtain ⟨layout, first, others, same, measured_first, measured_rest, rfl⟩ :=
    bitsOfSlots_cons_eq_ok_iff.mp measured
  have low : 0 ≤ first.toInt :=
    Layout.nonneg_of_encodedBits (wellFormed.of_mem List.mem_cons_self same) measured_first
  -- The others are a sequence of their own.
  have wellFormed_rest : (Layout.sequence rest).WellFormed := wellFormed.2
  have high : 0 ≤ others.toInt := Layout.nonneg_of_encodedBits wellFormed_rest measured_rest
  change first.toInt + others.toInt = bits at total
  exact ⟨layout, first.toNat, others.toNat, same,
    ⟨first, measured_first, (Int.toNat_of_nonneg low).symm⟩,
    ⟨others, measured_rest, (Int.toNat_of_nonneg high).symm⟩, by unfold Integer.toNat; omega⟩

namespace Layout.HasBits

theorem array {length : Length} {element : Layout} (has : (Layout.array length element).HasBits bits)
    (wellFormed : (Layout.array length element).WellFormed) :
    ∃ count each, length = .literal count ∧ element.HasBits each ∧ bits = count.toNat * each := by
  obtain ⟨size, measured, total⟩ := has
  obtain ⟨count, each, rfl, measured_element, rfl⟩ := encodedBits_array_eq_ok_iff.mp measured
  have low : 0 ≤ count.toInt := Integer.IsAtLeast.le_toInt wellFormed.1
  have high : 0 ≤ each.toInt := nonneg_of_encodedBits wellFormed.2 measured_element
  change count.toInt * each.toInt = bits at total
  refine ⟨count, each.toNat, rfl, ⟨each, measured_element, (Int.toNat_of_nonneg high).symm⟩, ?_⟩
  have counts : (count.toNat : Int) * each.toNat = bits := by
    rw [Integer.toNat, Integer.toNat, Int.toNat_of_nonneg low, Int.toNat_of_nonneg high, total]
  exact_mod_cast counts.symm

theorem alternative {discriminant : Text} {cases : List (Integer × Layout)}
    {otherwise : Option Layout} (has : (branch discriminant cases otherwise).HasBits bits)
    {layout : Layout} (alternative : Alternative cases otherwise layout) : layout.HasBits bits := by
  obtain ⟨size, measured, total⟩ := has
  obtain ⟨own, measured_own, same⟩ := (encodedBits_branch measured).1 layout alternative
  exact ⟨own, measured_own, same.trans total⟩

theorem width {layout : Layout} {width : Integer} (has : layout.HasBits bits)
    (same : layout.encodedBits = .ok width) : width.toInt = bits := by
  obtain ⟨size, measured, total⟩ := has
  rw [same] at measured
  cases measured
  exact total

theorem byteSlice {length : Length} (has : (Layout.byteSlice length).HasBits bits) :
    ∃ count, length = .literal count ∧ 8 * count.toInt = bits := by
  obtain ⟨size, measured, total⟩ := has
  obtain ⟨count, rfl, rfl⟩ := encodedBits_byteSlice_eq_ok_iff.mp measured
  exact ⟨count, rfl, total⟩

theorem text {length : Length} {encoding : Text} (has : (Layout.text length encoding).HasBits bits) :
    ∃ count, length = .literal count ∧ 8 * count.toInt = bits := by
  obtain ⟨size, measured, total⟩ := has
  obtain ⟨count, rfl, rfl⟩ := encodedBits_text_eq_ok_iff.mp measured
  exact ⟨count, rfl, total⟩

end Layout.HasBits

end Counts

end BitLayout
