import BitLayout.Layout.Error

/-!
# Sizes

The number of bits a layout takes, where that does not depend on the data.

## Main definitions

* `Layout.encodedBits`, `Layout.encodedSize`
* `Layout.fieldSizes`: the size of each field of a sequence
-/

namespace BitLayout

/-- The size that all cases have in common. -/
def commonSize (discriminant : Text) : List Integer → Except LayoutError Integer
  | [] => .error (.casesDifferInSize discriminant)
  | size :: rest =>
    if rest.all size.same then .ok size else .error (.casesDifferInSize discriminant)

/-- The literal count of a length. -/
def Length.expectLiteral (kind : Layout.Kind) : Length → Except LayoutError Integer
  | .literal count => .ok count
  | .field name => .error (.lengthInField kind name)

/-- The bits in so many bytes. -/
def eightfold (count : Integer) : Integer := .number (8 * count.toInt)

mutual

/-- The size of a layout in bits. A width is its size as it is spelled. -/
def Layout.encodedBits : Layout → Except LayoutError Integer
  | .abstract => .error (.unsupported .abstract)
  | .sequence slots => bitsOfSlots slots
  | .array length element => do
    let count ← length.expectLiteral .array
    let size ← element.encodedBits
    .ok (.number (count.toInt * size.toInt))
  | .branch discriminant cases otherwise => do
    let sizes ← sizesOfCases cases
    match otherwise with
    | none => commonSize discriminant sizes
    | some layout => do
      let size ← layout.encodedBits
      commonSize discriminant (sizes ++ [size])
  | .bitField width => .ok width
  | .wideField width => .ok width
  | .byteSlice length => eightfold <$> length.expectLiteral .byteSlice
  | .text length _ => eightfold <$> length.expectLiteral .text
  | .padding width => .ok width

/-- The size of slots one after another. -/
def bitsOfSlots : List Slot → Except LayoutError Integer
  | [] => .ok 0
  | .named _ layout :: rest => do
    let size ← layout.encodedBits
    let others ← bitsOfSlots rest
    .ok (.number (size.toInt + others.toInt))
  | .embedded layout :: rest => do
    let size ← layout.encodedBits
    let others ← bitsOfSlots rest
    .ok (.number (size.toInt + others.toInt))
  | .padding layout _ :: rest => do
    let size ← layout.encodedBits
    let others ← bitsOfSlots rest
    .ok (.number (size.toInt + others.toInt))
  | .foreign typeName _ :: _ => .error (.slotWithoutLayout typeName)

/-- The sizes of the cases of a branch. -/
def sizesOfCases : List (Integer × Layout) → Except LayoutError (List Integer)
  | [] => .ok []
  | (_, layout) :: rest => do
    let size ← layout.encodedBits
    let others ← sizesOfCases rest
    .ok (size :: others)

end

/-- The size of a layout in bytes, the last one counted in full. -/
def Layout.encodedSize (layout : Layout) : Except LayoutError Int :=
  (fun bits => (bits.toInt + 7) / 8) <$> layout.encodedBits

/-- Names of fields with their sizes in bits, `none` where the size depends on the data. -/
abbrev FieldSizes := List (Text × Option Integer)

namespace FieldSizes

/-- Sets the size of a field. A name already there keeps its place. -/
def set : FieldSizes → Text → Option Integer → FieldSizes
  | [], name, size => [(name, size)]
  | (name, size) :: rest, newName, newSize =>
    if name = newName then (name, newSize) :: rest else (name, size) :: set rest newName newSize

/-- Sets the sizes of several fields in order. -/
def merge (sizes added : FieldSizes) : FieldSizes :=
  added.foldl (fun sizes (name, size) => sizes.set name size) sizes

end FieldSizes

/-- The size of a layout as an entry, unless the layout is broken. -/
def Layout.sizeEntry (layout : Layout) : Except LayoutError (Option Integer) :=
  match layout.encodedBits with
  | .ok size => .ok (some size)
  | .error (.slotWithoutLayout typeName) => .error (.slotWithoutLayout typeName)
  | .error _ => .ok none

mutual

/-- The fields that an embedded layout contributes: those of a sequence, and of any other layout one
entry named by its sort. -/
def Layout.embeddedSizes : Layout → Except LayoutError FieldSizes
  | .sequence slots => fieldSizesOfSlots [] slots
  | layout => do
    let size ← layout.sizeEntry
    .ok [("(" ++ layout.kind.name ++ ")", size)]

/-- The sizes of the fields of slots, after those in `sizes`. Padding contributes nothing. -/
def fieldSizesOfSlots (sizes : FieldSizes) : List Slot → Except LayoutError FieldSizes
  | [] => .ok sizes
  | .padding .. :: rest => fieldSizesOfSlots sizes rest
  | .named name layout :: rest => do
    let size ← layout.sizeEntry
    fieldSizesOfSlots (sizes.set name size) rest
  | .embedded layout :: rest => do
    let inner ← layout.embeddedSizes
    fieldSizesOfSlots (sizes.merge inner) rest
  | .foreign typeName _ :: _ => .error (.slotWithoutLayout typeName)

end

/-- The size of each field of a sequence, in the order of the decoded record. -/
def Layout.fieldSizes : Layout → Except LayoutError FieldSizes
  | .sequence slots => fieldSizesOfSlots [] slots
  | layout => .error (.fieldsOfNonSequence layout.kind.typeName)

end BitLayout
