import BitLayout.Layout.Builder

/-!
# Well-formed layouts

The layouts that decoding, encoding and sizes are meant for: widths and lengths are in range,
names are not empty, and every part of a layout is a layout of a definite sort. The checked
constructors in `BitLayout.Layout.Builder` build well-formed layouts from well-formed parts.

## Main definitions

* `Length.WellFormed`, `Layout.WellFormed`, `Slot.WellFormed`
* `Layout.isPadding`: bits without a value, which a slot holds in a way of its own
-/

namespace BitLayout

/-- A number, not a truth value, of at least `bound`. -/
def Integer.IsAtLeast (bound : Int) : Integer → Prop
  | .number n => bound ≤ n
  | .truth _ => False

/-- A number, not a truth value, that messages can show. -/
def Integer.IsKey : Integer → Prop
  | .number n => (Wording.ofInt n).isWritable = true
  | .truth _ => False

/-- A count of at least zero or the name of a field. -/
def Length.WellFormed : Length → Prop
  | .literal count => count.IsAtLeast 0
  | .field name => name ≠ []

/-- Whether a layout is padding. -/
def Layout.isPadding : Layout → Bool
  | .padding _ => true
  | _ => false

mutual

/-- A layout with widths and lengths in range, names that are not empty, different keys in the cases
of a branch, known encodings, and well-formed parts. -/
def Layout.WellFormed : Layout → Prop
  | .abstract => False
  | .sequence slots => WellFormedSlots slots
  | .array length element => length.WellFormed ∧ element.WellFormed
  | .branch discriminant cases otherwise =>
    discriminant ≠ [] ∧ (cases.map fun (key, _) => key.toInt).Nodup ∧ WellFormedCases cases ∧
      match otherwise with
      | none => True
      | some layout => layout.WellFormed
  | .bitField width => width.IsAtLeast 1 ∧ width.toInt ≤ Build.maxBitFieldWidth
  | .wideField width => width.IsAtLeast 1
  | .byteSlice length => length.WellFormed
  | .text length encoding => length.WellFormed ∧ ∃ e, EncodingName.find encoding = .encoding e
  | .padding width => width.IsAtLeast 1

/-- A slot with a well-formed layout, with a name unless it is embedded; padding has a slot of its
own. -/
def Slot.WellFormed : Slot → Prop
  | .named name layout => name ≠ [] ∧ layout.isPadding = false ∧ layout.WellFormed
  | .embedded layout => layout.isPadding = false ∧ layout.WellFormed
  | .padding layout _ => layout.isPadding = true ∧ layout.WellFormed
  | .foreign .. => False

/-- Slots that are all well-formed. -/
def WellFormedSlots : List Slot → Prop
  | [] => True
  | slot :: rest => slot.WellFormed ∧ WellFormedSlots rest

/-- Cases whose keys and layouts are all well-formed. -/
def WellFormedCases : List (Integer × Layout) → Prop
  | [] => True
  | (key, layout) :: rest => key.IsKey ∧ layout.WellFormed ∧ WellFormedCases rest

end

end BitLayout
