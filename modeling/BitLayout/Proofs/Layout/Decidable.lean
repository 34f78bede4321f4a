import BitLayout.Proofs.Layout.Names
import BitLayout.Value.Basic

/-!
# Deciding what is asked of layouts

Whether a given layout is well-formed and whether its names are distinct can be computed, as can any
property of all layouts below it that can be computed for each.

## Main definitions

* `Layout.decideWellFormed`, `Layout.decideEverywhere`
* `Layout.telegram`, `Layout.telegramRecord`: a layout with a count and a choice, and a record of it
-/

namespace BitLayout

instance (bound : Int) (n : Integer) : Decidable (n.IsAtLeast bound) :=
  match n with
  | .number n => inferInstanceAs (Decidable (bound ≤ n))
  | .truth _ => inferInstanceAs (Decidable False)

instance (n : Integer) : Decidable n.IsKey :=
  match n with
  | .number n => inferInstanceAs (Decidable ((Wording.ofInt n).isWritable = true))
  | .truth _ => inferInstanceAs (Decidable False)

instance (length : Length) : Decidable length.WellFormed :=
  match length with
  | .literal count => inferInstanceAs (Decidable (count.IsAtLeast 0))
  | .field name => inferInstanceAs (Decidable (name ≠ []))

instance (name : Text) : Decidable (∃ e, EncodingName.find name = .encoding e) :=
  match found : EncodingName.find name with
  | .encoding e => isTrue ⟨e, rfl⟩
  | .otherCodec => isFalse (by rintro ⟨e, same⟩; cases same)
  | .unknown => isFalse (by rintro ⟨e, same⟩; cases same)
  | .unusable _ => isFalse (by rintro ⟨e, same⟩; cases same)

mutual

/-- Decides whether a layout is well-formed. -/
def Layout.decideWellFormed (layout : Layout) : Decidable layout.WellFormed :=
  match layout with
  | .abstract => inferInstanceAs (Decidable False)
  | .sequence slots => decideWellFormedSlots slots
  | .array length element =>
    have := element.decideWellFormed
    inferInstanceAs (Decidable (length.WellFormed ∧ element.WellFormed))
  | .branch discriminant cases none =>
    have := decideWellFormedCases cases
    inferInstanceAs (Decidable (discriminant ≠ [] ∧ (cases.map fun (key, _) => key.toInt).Nodup ∧
      WellFormedCases cases ∧ True))
  | .branch discriminant cases (some layout) =>
    have := decideWellFormedCases cases
    have := layout.decideWellFormed
    inferInstanceAs (Decidable (discriminant ≠ [] ∧ (cases.map fun (key, _) => key.toInt).Nodup ∧
      WellFormedCases cases ∧ layout.WellFormed))
  | .bitField width =>
    inferInstanceAs (Decidable (width.IsAtLeast 1 ∧ width.toInt ≤ Build.maxBitFieldWidth))
  | .wideField width => inferInstanceAs (Decidable (width.IsAtLeast 1))
  | .byteSlice length => inferInstanceAs (Decidable length.WellFormed)
  | .text length encoding =>
    inferInstanceAs (Decidable (length.WellFormed ∧ ∃ e, EncodingName.find encoding = .encoding e))
  | .padding width => inferInstanceAs (Decidable (width.IsAtLeast 1))

/-- Decides whether a slot is well-formed. -/
def Slot.decideWellFormed (slot : Slot) : Decidable slot.WellFormed :=
  match slot with
  | .named name layout =>
    have := layout.decideWellFormed
    inferInstanceAs (Decidable (name ≠ [] ∧ layout.isPadding = false ∧ layout.WellFormed))
  | .embedded layout =>
    have := layout.decideWellFormed
    inferInstanceAs (Decidable (layout.isPadding = false ∧ layout.WellFormed))
  | .padding layout _ =>
    have := layout.decideWellFormed
    inferInstanceAs (Decidable (layout.isPadding = true ∧ layout.WellFormed))
  | .foreign .. => inferInstanceAs (Decidable False)

/-- Decides whether slots are well-formed. -/
def decideWellFormedSlots (slots : List Slot) : Decidable (WellFormedSlots slots) :=
  match slots with
  | [] => inferInstanceAs (Decidable True)
  | slot :: rest =>
    have := slot.decideWellFormed
    have := decideWellFormedSlots rest
    inferInstanceAs (Decidable (slot.WellFormed ∧ WellFormedSlots rest))

/-- Decides whether cases are well-formed. -/
def decideWellFormedCases (cases : List (Integer × Layout)) : Decidable (WellFormedCases cases) :=
  match cases with
  | [] => inferInstanceAs (Decidable True)
  | (key, layout) :: rest =>
    have := layout.decideWellFormed
    have := decideWellFormedCases rest
    inferInstanceAs (Decidable (key.IsKey ∧ layout.WellFormed ∧ WellFormedCases rest))

end

instance (layout : Layout) : Decidable layout.WellFormed := layout.decideWellFormed

section Everywhere

variable (P : Layout → Prop) [DecidablePred P]

mutual

/-- Decides whether a layout and all layouts below it have a property. -/
def Layout.decideEverywhere (layout : Layout) : Decidable (layout.Everywhere P) :=
  match layout with
  | .abstract => inferInstanceAs (Decidable (P .abstract))
  | .sequence slots =>
    have := decideEverywhereInSlots slots
    inferInstanceAs (Decidable (P (.sequence slots) ∧ EverywhereInSlots P slots))
  | .array length element =>
    have := element.decideEverywhere
    inferInstanceAs (Decidable (P (.array length element) ∧ element.Everywhere P))
  | .branch discriminant cases none =>
    have := decideEverywhereInCases cases
    inferInstanceAs (Decidable (P (.branch discriminant cases none) ∧
      EverywhereInCases P cases ∧ True))
  | .branch discriminant cases (some layout) =>
    have := decideEverywhereInCases cases
    have := layout.decideEverywhere
    inferInstanceAs (Decidable (P (.branch discriminant cases (some layout)) ∧
      EverywhereInCases P cases ∧ layout.Everywhere P))
  | .bitField width => inferInstanceAs (Decidable (P (.bitField width)))
  | .wideField width => inferInstanceAs (Decidable (P (.wideField width)))
  | .byteSlice length => inferInstanceAs (Decidable (P (.byteSlice length)))
  | .text length encoding => inferInstanceAs (Decidable (P (.text length encoding)))
  | .padding width => inferInstanceAs (Decidable (P (.padding width)))

/-- Decides whether the layouts in slots have a property, with all below them. -/
def decideEverywhereInSlots (slots : List Slot) : Decidable (EverywhereInSlots P slots) :=
  match slots with
  | [] => inferInstanceAs (Decidable True)
  | .named _ layout :: rest =>
    have := layout.decideEverywhere
    have := decideEverywhereInSlots rest
    inferInstanceAs (Decidable (layout.Everywhere P ∧ EverywhereInSlots P rest))
  | .embedded layout :: rest =>
    have := layout.decideEverywhere
    have := decideEverywhereInSlots rest
    inferInstanceAs (Decidable (layout.Everywhere P ∧ EverywhereInSlots P rest))
  | .padding layout _ :: rest =>
    have := layout.decideEverywhere
    have := decideEverywhereInSlots rest
    inferInstanceAs (Decidable (layout.Everywhere P ∧ EverywhereInSlots P rest))
  | .foreign .. :: rest => decideEverywhereInSlots rest

/-- Decides whether the layouts of cases have a property, with all below them. -/
def decideEverywhereInCases (cases : List (Integer × Layout)) :
    Decidable (EverywhereInCases P cases) :=
  match cases with
  | [] => inferInstanceAs (Decidable True)
  | (_, layout) :: rest =>
    have := layout.decideEverywhere
    have := decideEverywhereInCases rest
    inferInstanceAs (Decidable (layout.Everywhere P ∧ EverywhereInCases P rest))

end

end Everywhere

instance decideDistinctSlots : (slots : List Slot) → Decidable (DistinctSlots slots)
  | [] => inferInstanceAs (Decidable True)
  | slot :: rest =>
    have := decideDistinctSlots rest
    inferInstanceAs (Decidable ((∀ name ∈ slot.names, name ∉ namesOfSlots rest) ∧
      DistinctSlots rest))

instance : DecidablePred Layout.HasDistinctSlots
  | .sequence slots => decideDistinctSlots slots
  | .abstract | .array .. | .branch .. | .bitField _ | .wideField _ | .byteSlice _ | .text .. |
    .padding _ => isTrue trivial

instance (layout : Layout) : Decidable layout.DistinctNames :=
  layout.decideEverywhere Layout.HasDistinctSlots

namespace Layout

/-- A count, padding, as many items, and for a count of two a unit. -/
def telegram : Layout :=
  .sequence
    [.named "count" (.bitField 3), .padding (.padding 5) none,
      .named "items" (.array (.field "count") (.bitField 4)),
      .embedded (.branch "count" [(2, .sequence [.named "unit" (.text (.literal 1) "ascii")])] none)]

/-- Two items and their unit. -/
def telegramRecord : Entries :=
  [(.text "count", .int 2), (.text "items", .list [.int 10, .int 11]), (.text "unit", .text "C")]

theorem wellFormed_telegram : telegram.WellFormed := by decide +kernel

theorem distinctNames_telegram : telegram.DistinctNames := by decide +kernel

end Layout

end BitLayout
