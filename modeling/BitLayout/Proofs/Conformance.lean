import BitLayout.Proofs.Layout.Names
import BitLayout.Text.Encoding
import BitLayout.Scope
import Mathlib.Algebra.Ring.Int.Defs

/-!
# Values that fit a layout

What a caller is expected to encode: numbers that fit their width, lists, bytes and texts of the
length that is asked for, records with exactly the fields of their layout. Lengths and choices are
looked up in the record around a value, so whether a value fits depends on that record.

## Main definitions

* `Layout.Fits`: a value fits a layout
* `Slot.Fits`, `SlotsFit`, `Layout.Merges`: fields of a record fit slots or an embedded layout, which
  take the fields of the given names

## Main results

* `Slot.Fits.names_subset`, `SlotsFit.names_subset`, `Layout.Merges.names_subset`
-/

namespace BitLayout

/-- The integer of a value fits into so many bits. -/
def Value.FitsWidth (value : Value) (width : Integer) : Prop :=
  ∃ n, value.integer? = some n ∧ 0 ≤ n.toInt ∧ n.toInt < 2 ^ width.toNat

mutual

/-- A value fits a layout in a scope. -/
inductive Layout.Fits : Layout → Scope → Value → Prop
  /-- A record has the fields that the slots take and no others. -/
  | sequence {slots : List Slot} {scope : Scope} {record : Entries} {names : List Text}
    (fields : SlotsFit slots record names) (noOthers : record.keys.Perm (names.map .text)) :
    (Layout.sequence slots).Fits scope (.dict record)
  /-- A list has as many items as asked for, which see no record around them. -/
  | array {length : Length} {element : Layout} {scope : Scope} {count : Integer}
    {items : List Value} (resolved : length.resolve scope = .ok count)
    (same : count.toInt = items.length) (each : ∀ item ∈ items, element.Fits none item) :
    (Layout.array length element).Fits scope (.list items)
  /-- A value fits the alternative chosen by the discriminant. -/
  | branch {discriminant : Text} {cases : List (Integer × Layout)} {otherwise : Option Layout}
    {scope : Scope} {key : Integer} {layout : Layout} {value : Value}
    (found : resolveField scope discriminant = .ok key)
    (chosen : Layout.select cases otherwise key = some layout) (fits : layout.Fits scope value) :
    (Layout.branch discriminant cases otherwise).Fits scope value
  | bitField {width : Integer} {scope : Scope} {value : Value} (fits : value.FitsWidth width) :
    (Layout.bitField width).Fits scope value
  | wideField {width : Integer} {scope : Scope} {value : Value} (fits : value.FitsWidth width) :
    (Layout.wideField width).Fits scope value
  | byteSlice {length : Length} {scope : Scope} {count : Integer} {holder : ByteHolder}
    {raw : List UInt8} (resolved : length.resolve scope = .ok count)
    (same : count.toInt = raw.length) : (Layout.byteSlice length).Fits scope (.bytes holder raw)
  /-- The bytes of a text have the length asked for and spell the text again. -/
  | text {length : Length} {encoding : Text} {scope : Scope} {count : Integer} {t : Text}
    {raw : List UInt8} (resolved : length.resolve scope = .ok count)
    (spelled : EncodingName.encode encoding t = .ok raw) (same : count.toInt = raw.length)
    (back : EncodingName.decode encoding raw = .ok t) :
    (Layout.text length encoding).Fits scope (.text t)
  | padding {width : Integer} {scope : Scope} : (Layout.padding width).Fits scope .null

/-- The fields of the given names fit a slot, in the scope of their record. -/
inductive Slot.Fits : Slot → Entries → List Text → Prop
  | named {name : Text} {layout : Layout} {record : Entries} {value : Value}
    (found : record.field? name = some value) (fits : layout.Fits (some record) value) :
    (Slot.named name layout).Fits record [name]
  | embedded {layout : Layout} {record : Entries} {names : List Text}
    (merges : layout.Merges record names) : (Slot.embedded layout).Fits record names
  | padding {layout : Layout} {label : Option Text} {record : Entries} :
    (Slot.padding layout label).Fits record []

/-- The fields of the given names fit slots one after another. -/
inductive SlotsFit : List Slot → Entries → List Text → Prop
  | nil {record : Entries} : SlotsFit [] record []
  | cons {slot : Slot} {rest : List Slot} {record : Entries} {names others : List Text}
    (first : slot.Fits record names) (later : SlotsFit rest record others) :
    SlotsFit (slot :: rest) record (names ++ others)

/-- The fields of the given names fit an embedded layout, which has to be one of records. -/
inductive Layout.Merges : Layout → Entries → List Text → Prop
  | sequence {slots : List Slot} {record : Entries} {names : List Text}
    (fields : SlotsFit slots record names) : (Layout.sequence slots).Merges record names
  | branch {discriminant : Text} {cases : List (Integer × Layout)} {otherwise : Option Layout}
    {record : Entries} {key : Integer} {layout : Layout} {names : List Text}
    (found : resolveField (some record) discriminant = .ok key)
    (chosen : Layout.select cases otherwise key = some layout)
    (merges : layout.Merges record names) :
    (Layout.branch discriminant cases otherwise).Merges record names

end

section Names

variable {record : Entries} {names : List Text}

-- What is below the slots is a hypothesis here, since this is a step of the induction on layouts.
private theorem names_subset_of {slots : List Slot}
    (each : ∀ slot ∈ slots, ∀ layout, slot.layout? = some layout → ∀ {names},
      layout.Merges record names → names ⊆ layout.mergedNames)
    (fits : SlotsFit slots record names) : names ⊆ namesOfSlots slots := by
  induction slots generalizing names with
  | nil =>
    cases fits
    exact List.nil_subset _
  | cons slot rest ih =>
    obtain ⟨inSlot, inRest⟩ := List.forall_mem_cons.mp each
    cases fits with
    | cons first later =>
      refine List.append_subset.mpr ⟨List.Subset.trans ?_ (List.subset_append_left _ _),
        List.Subset.trans (ih inRest later) (List.subset_append_right _ _)⟩
      cases first with
      | named => exact List.Subset.refl _
      | embedded merges => exact inSlot _ rfl merges
      | padding => exact List.nil_subset _

/-- An embedded layout takes some of the names that it may merge. -/
theorem Layout.Merges.names_subset {layout : Layout} (merges : layout.Merges record names) :
    names ⊆ layout.mergedNames := by
  induction layout using Layout.induction generalizing names with
  | sequence slots ih =>
    cases merges with
    | sequence fields => exact names_subset_of ih fields
  | branch discriminant cases otherwise ih =>
    cases merges with
    | branch found chosen merges =>
      have alternative := alternative_of_select chosen
      exact List.Subset.trans (ih _ alternative merges) alternative.mergedNames_subset
  | _ => cases merges

theorem SlotsFit.names_subset {slots : List Slot} (fits : SlotsFit slots record names) :
    names ⊆ namesOfSlots slots :=
  names_subset_of (fun _ _ _ _ _ merges => merges.names_subset) fits

theorem Slot.Fits.names_subset {slot : Slot} (fits : slot.Fits record names) :
    names ⊆ slot.names := by
  cases fits with
  | named => exact List.Subset.refl _
  | embedded merges => exact merges.names_subset
  | padding => exact List.nil_subset _

end Names

end BitLayout
