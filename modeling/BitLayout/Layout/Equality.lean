import BitLayout.Layout.Basic

/-!
# Equality of layouts

Two layouts are the same when they are of one sort and agree in every part, slots and cases in
order. A layout of no sort in particular is the same as none: each is its own.

## Main definitions

* `Layout.same`, `Slot.same`
-/

namespace BitLayout

/-- Whether two lengths are the same count or the same name. -/
def Length.same : Length → Length → Bool
  | .literal count, .literal count' => count.same count'
  | .field name, .field name' => name == name'
  | _, _ => false

mutual

/-- Whether two layouts agree in sort and in every part. -/
def Layout.same : Layout → Layout → Bool
  | .sequence slots, .sequence slots' => sameSlots slots slots'
  | .array length element, .array length' element' => length.same length' && element.same element'
  | .branch discriminant cases otherwise, .branch discriminant' cases' otherwise' =>
    discriminant == discriminant' && sameCases cases cases' &&
      (match otherwise, otherwise' with
        | none, none => true
        | some layout, some layout' => layout.same layout'
        | _, _ => false)
  | .bitField width, .bitField width' => width.same width'
  | .wideField width, .wideField width' => width.same width'
  | .byteSlice length, .byteSlice length' => length.same length'
  | .text length encoding, .text length' encoding' => length.same length' && encoding == encoding'
  | .padding width, .padding width' => width.same width'
  | _, _ => false
termination_by structural layout _ => layout

/-- Whether two slots agree in sort and in every part. -/
def Slot.same : Slot → Slot → Bool
  | .named name layout, .named name' layout' => name == name' && layout.same layout'
  | .embedded layout, .embedded layout' => layout.same layout'
  | .padding layout label, .padding layout' label' => layout.same layout' && label == label'
  | .foreign typeName written, .foreign typeName' written' =>
    typeName == typeName' && written == written'
  | _, _ => false
termination_by structural slot _ => slot

/-- Whether two lists of slots agree position by position. -/
def sameSlots : List Slot → List Slot → Bool
  | [], [] => true
  | slot :: rest, slot' :: rest' => slot.same slot' && sameSlots rest rest'
  | _, _ => false
termination_by structural slots _ => slots

/-- Whether two lists of cases agree position by position. -/
def sameCases : List (Integer × Layout) → List (Integer × Layout) → Bool
  | [], [] => true
  | (key, layout) :: rest, (key', layout') :: rest' =>
    key.same key' && layout.same layout' && sameCases rest rest'
  | _, _ => false
termination_by structural cases _ => cases

end

end BitLayout
