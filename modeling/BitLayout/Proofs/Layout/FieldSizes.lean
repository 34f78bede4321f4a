import BitLayout.Proofs.Layout.Decidable
import BitLayout.Proofs.Layout.Size
import Mathlib

/-!
# The sizes of fields

The slots of an embedded sequence stand for it in the record around it, so the sizes of the fields
are those of the slots that are left when all embedded sequences are replaced by their slots. A named
slot is listed by its name, any other embedded layout by its sort, and padding not at all. As long as
no two slots are listed alike nothing is lost: every slot has its entry, and the entries and the
padding make up the size of the whole.

Two embedded layouts of one sort are listed alike, and then only the size of the last one is kept.

## Main definitions

* `flattenSlots`: slots with those of embedded sequences in their place
* `Slot.listedName?`, `Slot.listedSize?`, `Slot.paddingWidth?`: what each of them contributes

## Main results

* `fieldSizesOfSlots_eq_append`: the entries are those of the flattened slots
* `Layout.fieldSizes_account`: they account for every field and, with the padding, for every bit
* `Layout.not_fieldSizes_account_twoChoices`: not so for two embedded branches
-/

namespace BitLayout

mutual

/-- The slots that an embedded layout stands for: those of a sequence, or one with the layout. -/
def Layout.flattened : Layout → List Slot
  | .sequence slots => flattenSlots slots
  | layout => [.embedded layout]

/-- Slots with those of embedded sequences in their place. -/
def flattenSlots : List Slot → List Slot
  | [] => []
  | .embedded layout :: rest => layout.flattened ++ flattenSlots rest
  | slot :: rest => slot :: flattenSlots rest

end

namespace Slot

/-- The name of a named slot. -/
def name? : Slot → Option Text
  | .named name _ => some name
  | _ => none

/-- The sort of an embedded layout. -/
def embeddedKind? : Slot → Option Layout.Kind
  | .embedded layout => some layout.kind
  | _ => none

/-- The name under which the size of a slot is listed. -/
def listedName? : Slot → Option Text
  | .named name _ => some name
  | .embedded layout => some ("(" ++ layout.kind.name ++ ")")
  | _ => none

/-- The name and the size of a slot, nothing for padding. The size is unknown if it depends on the
data. -/
def listedSize? : Slot → Option (Text × Option Integer)
  | .named name layout => some (name, layout.encodedBits.toOption)
  | .embedded layout => some ("(" ++ layout.kind.name ++ ")", layout.encodedBits.toOption)
  | _ => none

/-- The width of padding in a slot. -/
def paddingWidth? : Slot → Option Integer
  | .padding (.padding width) _ => some width
  | _ => none

end Slot

/-- The names and sizes of all fields of some slots. -/
def listedSizes (slots : List Slot) : FieldSizes := (flattenSlots slots).filterMap Slot.listedSize?

section Flattening

variable {slots : List Slot}

theorem flattenSlots_append {front back : List Slot} :
    flattenSlots (front ++ back) = flattenSlots front ++ flattenSlots back := by
  induction front with
  | nil => rfl
  | cons slot rest ih => cases slot <;> simp [flattenSlots, ih]

/-- Slots are listed under their names. -/
theorem map_fst_listedSizes :
    (listedSizes slots).map Prod.fst = (flattenSlots slots).filterMap Slot.listedName? := by
  rw [listedSizes, List.map_filterMap]
  congr 1
  funext slot
  cases slot <;> rfl

theorem listedSizes_cons_of_flatten {slot : Slot} {rest : List Slot}
    (same : flattenSlots (slot :: rest) = slot :: flattenSlots rest) :
    listedSizes (slot :: rest) = slot.listedSize?.toList ++ listedSizes rest := by
  rw [listedSizes, same, List.filterMap_cons]
  cases slot.listedSize? <;> rfl

theorem listedSizes_cons_embedded {layout : Layout} {rest : List Slot} :
    listedSizes (.embedded layout :: rest) =
      layout.flattened.filterMap Slot.listedSize? ++ listedSizes rest := by
  rw [listedSizes, flattenSlots, List.filterMap_append, listedSizes]

end Flattening

namespace FieldSizes

variable {sizes added : FieldSizes} {name : Text} {size : Option Integer}

/-- A new name goes to the end. -/
theorem set_of_absent (absent : name ∉ sizes.map Prod.fst) :
    sizes.set name size = sizes ++ [(name, size)] := by
  induction sizes with
  | nil => rfl
  | cons entry rest ih =>
    obtain ⟨first, old⟩ := entry
    rw [List.map_cons, List.mem_cons, not_or] at absent
    obtain ⟨different, absent⟩ := absent
    rw [set, if_neg (Ne.symm different), ih absent]
    rfl

/-- A name that is there keeps its place. -/
theorem names_set_of_mem (member : name ∈ sizes.map Prod.fst) :
    (sizes.set name size).map Prod.fst = sizes.map Prod.fst := by
  induction sizes with
  | nil => cases member
  | cons entry rest ih =>
    obtain ⟨first, old⟩ := entry
    rw [set]
    split
    · rfl
    · next different =>
      have later := (List.mem_cons.mp member).resolve_left (Ne.symm different)
      exact congrArg (first :: ·) (ih later)

theorem nodup_set (distinct : (sizes.map Prod.fst).Nodup) :
    ((sizes.set name size).map Prod.fst).Nodup := by
  by_cases there : name ∈ sizes.map Prod.fst
  · rwa [names_set_of_mem there]
  · rw [set_of_absent there, List.map_append]
    exact distinct.append (List.nodup_singleton name) (by simpa using there)

theorem mem_names_set {other : Text} :
    other ∈ (sizes.set name size).map Prod.fst ↔ other = name ∨ other ∈ sizes.map Prod.fst := by
  by_cases there : name ∈ sizes.map Prod.fst
  · rw [names_set_of_mem there, or_iff_right_of_imp]
    rintro rfl
    exact there
  · rw [set_of_absent there, List.map_append, List.mem_append, or_comm]
    exact or_congr_left List.mem_singleton

theorem mem_names_merge {other : Text} :
    other ∈ (sizes.merge added).map Prod.fst ↔
      other ∈ sizes.map Prod.fst ∨ other ∈ added.map Prod.fst := by
  induction added generalizing sizes with
  | nil => simp [merge]
  | cons entry rest ih =>
    obtain ⟨name, size⟩ := entry
    change other ∈ ((sizes.set name size).merge rest).map Prod.fst ↔ _
    rw [ih, mem_names_set, List.map_cons, List.mem_cons, or_assoc, or_left_comm]

/-- What is listed once a size is set is this size, or was listed before under another name. -/
theorem mem_set {other : Text} {entry : Option Integer} (distinct : (sizes.map Prod.fst).Nodup)
    (member : (other, entry) ∈ sizes.set name size) :
    (other = name ∧ entry = size) ∨ (other ≠ name ∧ (other, entry) ∈ sizes) := by
  induction sizes with
  | nil =>
    cases List.mem_singleton.mp member
    exact Or.inl ⟨rfl, rfl⟩
  | cons first rest ih =>
    obtain ⟨first, old⟩ := first
    obtain ⟨fresh, distinct⟩ := List.nodup_cons.mp distinct
    rw [set] at member
    split at member
    · next same =>
      subst same
      rcases List.mem_cons.mp member with here | later
      · cases here
        exact Or.inl ⟨rfl, rfl⟩
      · have apart : other ≠ first := by
          rintro rfl
          exact fresh (List.mem_map.mpr ⟨_, later, rfl⟩)
        exact Or.inr ⟨apart, List.mem_cons_of_mem _ later⟩
    · next different =>
      rcases List.mem_cons.mp member with here | later
      · cases here
        exact Or.inr ⟨different, List.mem_cons_self⟩
      · exact (ih distinct later).imp_right fun ⟨apart, there⟩ =>
          ⟨apart, List.mem_cons_of_mem _ there⟩

/-- What is listed once others are merged is one of these, or was listed before under none of their
names. -/
theorem mem_merge {other : Text} {entry : Option Integer} (distinct : (sizes.map Prod.fst).Nodup)
    (member : (other, entry) ∈ sizes.merge added) :
    (other, entry) ∈ added ∨ (other ∉ added.map Prod.fst ∧ (other, entry) ∈ sizes) := by
  induction added generalizing sizes with
  | nil => exact Or.inr ⟨List.not_mem_nil, member⟩
  | cons first rest ih =>
    obtain ⟨name, size⟩ := first
    rcases ih (nodup_set distinct) member with later | ⟨absent, before⟩
    · exact Or.inl (List.mem_cons_of_mem _ later)
    · rcases mem_set distinct before with ⟨rfl, rfl⟩ | ⟨different, before⟩
      · exact Or.inl List.mem_cons_self
      · exact Or.inr ⟨by simpa [different] using absent, before⟩

/-- New names go to the end one after another. -/
theorem merge_of_nodup (apart : ((sizes ++ added).map Prod.fst).Nodup) :
    sizes.merge added = sizes ++ added := by
  induction added generalizing sizes with
  | nil => exact (List.append_nil sizes).symm
  | cons entry rest ih =>
    obtain ⟨name, size⟩ := entry
    have absent : name ∉ sizes.map Prod.fst := by
      intro there
      rw [List.map_append] at apart
      exact (List.nodup_append.mp apart).2.2 name there name List.mem_cons_self rfl
    have again : sizes ++ (name, size) :: rest = (sizes ++ [(name, size)]) ++ rest := by simp
    change (sizes.set name size).merge rest = _
    rw [again] at apart ⊢
    rw [set_of_absent absent]
    exact ih apart

end FieldSizes

section Sizes

/-- The entry of a well-formed layout is its size, if it has one. -/
theorem Layout.sizeEntry_eq {layout : Layout} (wellFormed : layout.WellFormed) :
    layout.sizeEntry = .ok layout.encodedBits.toOption := by
  cases measured : layout.encodedBits with
  | ok size =>
    rw [sizeEntry, measured]
    rfl
  | error error =>
    have dependsOnData := dependsOnData_of_encodedBits wellFormed measured
    rw [sizeEntry, measured]
    cases error with
    | slotWithoutLayout typeName => exact dependsOnData.elim
    | _ => rfl

/-- The sizes of slots are listed one after another. -/
theorem fieldSizesOfSlots_append {front back : List Slot} {listed : FieldSizes} :
    fieldSizesOfSlots listed (front ++ back) =
      fieldSizesOfSlots listed front >>= fun sizes => fieldSizesOfSlots sizes back := by
  induction front generalizing listed with
  | nil => rfl
  | cons slot rest ih =>
    cases slot with
    | named name layout | embedded layout =>
      simp only [List.cons_append, fieldSizesOfSlots, ih, bind_assoc]
    | padding layout label =>
      rw [List.cons_append, fieldSizesOfSlots, fieldSizesOfSlots, ih]
    | foreign typeName written => rfl

/-- The fields of slots come behind those before them if no two of all these are listed alike. -/
theorem fieldSizesOfSlots_eq_append_of {slots : List Slot}
    (each : ∀ slot ∈ slots, ∀ layout, slot.layout? = some layout → layout.WellFormed →
      ((layout.flattened.filterMap Slot.listedSize?).map Prod.fst).Nodup →
      layout.embeddedSizes = .ok (layout.flattened.filterMap Slot.listedSize?))
    (wellFormed : WellFormedSlots slots) {sizes : FieldSizes}
    (apart : ((sizes ++ listedSizes slots).map Prod.fst).Nodup) :
    fieldSizesOfSlots sizes slots = .ok (sizes ++ listedSizes slots) := by
  induction slots generalizing sizes with
  | nil => exact congrArg Except.ok (List.append_nil sizes).symm
  | cons slot rest ih =>
    obtain ⟨inSlot, inRest⟩ := List.forall_mem_cons.mp each
    cases slot with
    | named name layout =>
      rw [listedSizes_cons_of_flatten rfl, ← List.append_assoc] at apart ⊢
      -- The name is new, so no entry is overwritten.
      have absent : name ∉ sizes.map Prod.fst := by
        intro there
        rw [List.map_append, List.map_append] at apart
        have front := (List.nodup_append.mp apart).1
        exact (List.nodup_append.mp front).2.2 name there name List.mem_cons_self rfl
      rw [fieldSizesOfSlots, Layout.sizeEntry_eq wellFormed.1.2.2]
      change fieldSizesOfSlots (sizes.set name _) rest = _
      rw [FieldSizes.set_of_absent absent]
      exact ih inRest wellFormed.2 apart
    | embedded layout =>
      rw [listedSizes_cons_embedded, ← List.append_assoc] at apart ⊢
      have front : ((sizes ++ layout.flattened.filterMap Slot.listedSize?).map Prod.fst).Nodup := by
        rw [List.map_append] at apart
        exact (List.nodup_append.mp apart).1
      -- The layout is measured on its own first, and its entries are merged with those so far.
      have inside := front
      rw [List.map_append] at inside
      rw [fieldSizesOfSlots, inSlot layout rfl wellFormed.1.2 (List.nodup_append.mp inside).2.1]
      change fieldSizesOfSlots (sizes.merge _) rest = _
      rw [FieldSizes.merge_of_nodup front]
      exact ih inRest wellFormed.2 apart
    | padding layout label =>
      rw [listedSizes_cons_of_flatten rfl] at apart ⊢
      exact ih inRest wellFormed.2 apart
    | foreign => exact wellFormed.1.elim

theorem Layout.embeddedSizes_eq {layout : Layout} (wellFormed : layout.WellFormed)
    (apart : ((layout.flattened.filterMap Slot.listedSize?).map Prod.fst).Nodup) :
    layout.embeddedSizes = .ok (layout.flattened.filterMap Slot.listedSize?) := by
  induction layout using Layout.induction with
  | sequence slots ih =>
    rw [embeddedSizes]
    change (([] ++ listedSizes slots).map Prod.fst).Nodup at apart
    exact fieldSizesOfSlots_eq_append_of ih wellFormed apart
  | _ =>
    rw [embeddedSizes, sizeEntry_eq wellFormed]
    · rfl
    · exact nofun

/-- The fields of well-formed slots come behind those before them if no two are listed alike. -/
theorem fieldSizesOfSlots_eq_append {slots : List Slot} (wellFormed : WellFormedSlots slots)
    {sizes : FieldSizes} (apart : ((sizes ++ listedSizes slots).map Prod.fst).Nodup) :
    fieldSizesOfSlots sizes slots = .ok (sizes ++ listedSizes slots) :=
  fieldSizesOfSlots_eq_append_of (fun _ _ _ _ => Layout.embeddedSizes_eq) wellFormed apart

end Sizes

/-- Every entry of some slots is a size, and these sizes and the widths of padding add up to the
total. -/
def SlotsAccountFor (slots : List Slot) (total : Int) : Prop :=
  ∃ bits : List Integer, (slots.filterMap Slot.listedSize?).map Prod.snd = bits.map some ∧
    (bits.map Integer.toInt).sum +
      ((slots.filterMap Slot.paddingWidth?).map Integer.toInt).sum = total

section Totals

variable {size : Integer}

theorem slotsAccountFor_nil : SlotsAccountFor [] 0 := ⟨[], rfl, rfl⟩

theorem SlotsAccountFor.append {front back : List Slot} {first second : Int}
    (inFront : SlotsAccountFor front first) (inBack : SlotsAccountFor back second) :
    SlotsAccountFor (front ++ back) (first + second) := by
  obtain ⟨bits, listed, rfl⟩ := inFront
  obtain ⟨bits', listed', rfl⟩ := inBack
  refine ⟨bits ++ bits', ?_, ?_⟩
  · rw [List.filterMap_append, List.map_append, listed, listed', List.map_append]
  · simp only [List.filterMap_append, List.map_append, List.sum_append]
    omega

theorem slotsAccountFor_named {name : Text} {layout : Layout}
    (measured : layout.encodedBits = .ok size) :
    SlotsAccountFor [.named name layout] size.toInt :=
  ⟨[size], by simp [Slot.listedSize?, measured, Except.toOption],
    by simp [List.filterMap_cons, Slot.paddingWidth?]⟩

theorem slotsAccountFor_embedded {layout : Layout} (measured : layout.encodedBits = .ok size) :
    SlotsAccountFor [.embedded layout] size.toInt :=
  ⟨[size], by simp [Slot.listedSize?, measured, Except.toOption],
    by simp [List.filterMap_cons, Slot.paddingWidth?]⟩

theorem slotsAccountFor_padding {layout : Layout} {label : Option Text}
    (isPadding : layout.isPadding = true) (measured : layout.encodedBits = .ok size) :
    SlotsAccountFor [.padding layout label] size.toInt := by
  cases layout with
  | padding width =>
    cases measured
    exact ⟨[], by simp [Slot.listedSize?], by simp [Slot.paddingWidth?]⟩
  | _ => cases isPadding

theorem accountFor_of_bitsOfSlots {slots : List Slot}
    (each : ∀ slot ∈ slots, ∀ layout, slot.layout? = some layout → layout.WellFormed →
      ∀ {size : Integer}, layout.encodedBits = .ok size →
      SlotsAccountFor layout.flattened size.toInt)
    (wellFormed : WellFormedSlots slots) (measured : bitsOfSlots slots = .ok size) :
    SlotsAccountFor (flattenSlots slots) size.toInt := by
  induction slots generalizing size with
  | nil =>
    cases measured
    exact slotsAccountFor_nil
  | cons slot rest ih =>
    obtain ⟨inSlot, inRest⟩ := List.forall_mem_cons.mp each
    obtain ⟨layout, first, others, same, measured_first, measured_rest, rfl⟩ :=
      bitsOfSlots_cons_eq_ok_iff.mp measured
    have later := ih inRest wellFormed.2 measured_rest
    -- Only an embedded layout may stand for several slots.
    cases slot with
    | named name layout =>
      cases same
      exact (slotsAccountFor_named measured_first).append later
    | embedded layout =>
      cases same
      exact (inSlot layout rfl wellFormed.1.2 measured_first).append later
    | padding layout label =>
      cases same
      exact (slotsAccountFor_padding wellFormed.1.1 measured_first).append later
    | foreign => cases same

/-- The slots that a layout stands for account for its size. -/
theorem Layout.accountFor_of_encodedBits {layout : Layout} (wellFormed : layout.WellFormed)
    (measured : layout.encodedBits = .ok size) :
    SlotsAccountFor layout.flattened size.toInt := by
  induction layout using Layout.induction generalizing size with
  | sequence slots ih =>
    exact accountFor_of_bitsOfSlots (fun slot member layout same wellFormed _ measured =>
      ih slot member layout same wellFormed measured) wellFormed measured
  | _ => exact slotsAccountFor_embedded measured

end Totals

section Names

variable {slots : List Slot}

/-- Different sorts have different names. -/
theorem Layout.Kind.name_injective : Function.Injective Kind.name := by
  intro first second same
  cases first <;> cases second <;> first | rfl | exact absurd same (by decide)

theorem startsWith_sort (kind : Layout.Kind) :
    Text.startsWith ("(" ++ kind.name ++ ")") "(" = true := by
  cases kind <;> rfl

/-- Slots are listed under different names if their own names are different and do not look like
sorts, and if the embedded layouts among them are of different sorts. -/
theorem nodup_listedNames (distinct : (slots.filterMap Slot.name?).Nodup)
    (plain : ∀ name ∈ slots.filterMap Slot.name?, name.startsWith "(" = false)
    (kinds : (slots.filterMap Slot.embeddedKind?).Nodup) :
    (slots.filterMap Slot.listedName?).Nodup := by
  rw [List.Nodup, List.pairwise_filterMap] at distinct kinds ⊢
  -- What holds of any two slots is said of those that are listed, which are of two kinds.
  have both := distinct.and kinds
  refine both.imp_of_mem ?_
  intro first second inFirst inSecond apart listed same listed' same'
  obtain ⟨names_apart, kinds_apart⟩ := apart
  have named {name : Text} {layout : Layout} (member : .named name layout ∈ slots) :
      name.startsWith "(" = false :=
    plain name (List.mem_filterMap.mpr ⟨_, member, rfl⟩)
  rintro rfl
  cases first with
  | named name layout =>
    cases same
    cases second with
    | named name' layout' =>
      cases same'
      exact names_apart _ rfl _ rfl rfl
    | embedded layout' =>
      cases same'
      exact absurd (startsWith_sort layout'.kind) (ne_true_of_eq_false (named inFirst))
    | padding | foreign => cases same'
  | embedded layout =>
    cases same
    cases second with
    | named name' layout' =>
      cases same'
      exact absurd (startsWith_sort layout.kind) (ne_true_of_eq_false (named inSecond))
    | embedded layout' =>
      have equal : layout'.kind.name = layout.kind.name := by
        simpa [Slot.listedName?] using same'
      exact kinds_apart _ rfl _ rfl (Layout.Kind.name_injective equal).symm
    | padding | foreign => cases same'
  | padding | foreign => cases same

end Names

namespace Layout

/-- The entries of a well-formed sequence account for everything in it if the names in it are
different and do not look like sorts, and no two embedded layouts that are no sequences are of one
sort. There is one entry for each named slot and each embedded layout, in the order of the layout,
with the size of that slot. If the whole has a size, each of them has, and with the widths of the
padding they add up to it. -/
theorem fieldSizes_account {slots : List Slot} (wellFormed : (Layout.sequence slots).WellFormed)
    (distinct : ((flattenSlots slots).filterMap Slot.name?).Nodup)
    (plain : ∀ name ∈ (flattenSlots slots).filterMap Slot.name?, name.startsWith "(" = false)
    (kinds : ((flattenSlots slots).filterMap Slot.embeddedKind?).Nodup) :
    ∃ sizes, (Layout.sequence slots).fieldSizes = .ok sizes ∧
      sizes = (flattenSlots slots).filterMap Slot.listedSize? ∧
      sizes.map Prod.fst = (flattenSlots slots).filterMap Slot.listedName? ∧
      ∀ size, (Layout.sequence slots).encodedBits = .ok size →
        ∃ bits : List Integer, sizes.map Prod.snd = bits.map some ∧
          (bits.map Integer.toInt).sum +
            (((flattenSlots slots).filterMap Slot.paddingWidth?).map Integer.toInt).sum =
              size.toInt := by
  have apart : (([] ++ listedSizes slots).map Prod.fst).Nodup := by
    rw [List.nil_append, map_fst_listedSizes]
    exact nodup_listedNames distinct plain kinds
  refine ⟨listedSizes slots, ?_, rfl, map_fst_listedSizes, fun size measured => ?_⟩
  · exact fieldSizesOfSlots_eq_append wellFormed apart
  · exact accountFor_of_encodedBits wellFormed measured

/-- A sort, a choice behind padding, and in an embedded sequence a mark and a size. -/
def crate : Layout :=
  .sequence
    [.named "sort" (.bitField 4), .padding (.padding 4) none,
      .embedded (.branch "sort" [(0, .sequence [.named "weight" byte])]
        (some (.sequence [.named "mark" (.byteSlice (.literal 1))]))),
      .embedded (.sequence [.padding (.padding 3) (some "spare"),
        .named "sizes" (.array (.literal 3) (.bitField 7))])]

theorem fieldSizes_account_crate :
    crate.WellFormed ∧ crate.encodedBits = .ok 40 ∧
      ∃ sizes, crate.fieldSizes = .ok sizes ∧
        sizes = ([("sort", some 4), ("(branch)", some 8), ("sizes", some 21)] : FieldSizes) ∧
        ∃ bits : List Integer, sizes.map Prod.snd = bits.map some ∧
          (bits.map Integer.toInt).sum + (4 + 3) = 40 := by
  have wellFormed : crate.WellFormed := by decide +kernel
  have measured : crate.encodedBits = .ok 40 := by rfl
  obtain ⟨sizes, listed, same, -, total⟩ := fieldSizes_account wellFormed (by decide +kernel)
    (by decide +kernel) (by decide +kernel)
  obtain ⟨bits, each, sum⟩ := total 40 measured
  exact ⟨wellFormed, measured, sizes, listed, same, bits, each, sum⟩

/-- A sort and two choices by it. -/
def twoChoices : Layout :=
  .sequence
    [.named "sort" byte, .embedded (.branch "sort" [(0, .sequence [.named "weight" byte])] none),
      .embedded (.branch "sort" [(0, .sequence [.named "price" (.wideField 16)])] none)]

/-- Two embedded branches are listed alike. Three slots of 32 bits have two entries, and these come to
24 bits. -/
theorem not_fieldSizes_account_twoChoices :
    twoChoices.WellFormed ∧
      (∃ slots, twoChoices = .sequence slots ∧
        ((flattenSlots slots).filterMap Slot.name?).Nodup ∧
        (∀ name ∈ (flattenSlots slots).filterMap Slot.name?, name.startsWith "(" = false) ∧
        (flattenSlots slots).filterMap Slot.listedSize? =
          ([("sort", some 8), ("(branch)", some 8), ("(branch)", some 16)] : FieldSizes)) ∧
      twoChoices.encodedBits = .ok 32 ∧
      twoChoices.fieldSizes = .ok [("sort", some 8), ("(branch)", some 16)] := by
  refine ⟨by decide +kernel, ⟨_, rfl, by decide +kernel, by decide +kernel, by rfl⟩, ?_, ?_⟩ <;> rfl

end Layout

end BitLayout
