import BitLayout.Number.Integer

/-!
# Layouts

A layout describes the bits of a binary record as a tree. Nothing here restricts widths, lengths
or names: the checked constructors are in `BitLayout.Layout.Builder`, and `Layout.WellFormed`
in `BitLayout.Layout.WellFormed` says what they guarantee.

## Main definitions

* `Length`: a literal count or the name of a field that holds it
* `Layout`, `Slot`: the tree
* `Layout.Kind`, `Layout.kind`: the sort of a layout and its name in messages
* `Layout.select`: the layout that a branch chooses for a discriminant
-/

namespace BitLayout

/-- How often or how long: a literal count or the name of a sibling field that holds it. -/
inductive Length where
  | literal (count : Integer)
  | field (name : Text)
deriving DecidableEq

mutual

/-- The bit-level layout of a value. -/
inductive Layout where
  /-- No layout in particular, supported by no operation. -/
  | abstract
  /-- Slots one after another; the value is a record. -/
  | sequence (slots : List Slot)
  /-- Repetitions of one element; the value is a list. -/
  | array (length : Length) (element : Layout)
  /-- One of several layouts, chosen by the integer in an earlier sibling field. -/
  | branch (discriminant : Text) (cases : List (Integer × Layout)) (otherwise : Option Layout)
  /-- An unsigned integer of 1 to 31 bits. -/
  | bitField (width : Integer)
  /-- An unsigned integer of any width. -/
  | wideField (width : Integer)
  /-- Raw bytes on a byte boundary. -/
  | byteSlice (length : Length)
  /-- Raw bytes on a byte boundary that spell a text in the named encoding. -/
  | text (length : Length) (encoding : Text)
  /-- Bits without a value. -/
  | padding (width : Integer)

/-- One position of a sequence. -/
inductive Slot where
  /-- A value stored under a name. -/
  | named (name : Text) (layout : Layout)
  /-- A record merged into the enclosing one. -/
  | embedded (layout : Layout)
  /-- A layout whose value is dropped, with an informational label. -/
  | padding (layout : Layout) (label : Option Text)
  /-- Something that is no slot, known only by the name of its type and its written form. -/
  | foreign (typeName : Text) (written : Wording)

end

namespace Layout

/-- The sort of a layout. -/
inductive Kind where
  | abstract
  | sequence
  | array
  | branch
  | bitField
  | wideField
  | byteSlice
  | text
  | padding
deriving DecidableEq

/-- The sort of a layout in messages and reports. -/
def Kind.name : Kind → Text
  | .abstract => "node"
  | .sequence => "sequence"
  | .array => "array"
  | .branch => "branch"
  | .bitField => "bitfield"
  | .wideField => "widefield"
  | .byteSlice => "byteslice"
  | .text => "text"
  | .padding => "padding"

/-- The name of the type of such a layout. -/
def Kind.typeName : Kind → Text
  | .abstract => "Node"
  | .sequence => "Sequence"
  | .array => "Array"
  | .branch => "Branch"
  | .bitField => "BitField"
  | .wideField => "WideField"
  | .byteSlice => "ByteSlice"
  | .text => "Text"
  | .padding => "Padding"

/-- The sort of a layout. -/
def kind : Layout → Kind
  | .abstract => .abstract
  | .sequence _ => .sequence
  | .array .. => .array
  | .branch .. => .branch
  | .bitField _ => .bitField
  | .wideField _ => .wideField
  | .byteSlice _ => .byteSlice
  | .text .. => .text
  | .padding _ => .padding

/-- The first case with the given key, otherwise the layout for all other keys. -/
def select (cases : List (Integer × Layout)) (otherwise : Option Layout) (key : Integer) :
    Option Layout :=
  match cases with
  | [] => otherwise
  | (k, layout) :: rest => if k.same key then some layout else select rest otherwise key

/-- A single bit. -/
def bit : Layout := .bitField 1

/-- Four bits. -/
def nibble : Layout := .bitField 4

/-- Eight bits. -/
def byte : Layout := .bitField 8

end Layout

namespace Slot

/-- The name of the type of a slot. -/
def typeName : Slot → Text
  | .named .. => "NamedSlot"
  | .embedded _ => "EmbeddedSlot"
  | .padding .. => "PaddingSlot"
  | .foreign name _ => name

end Slot

end BitLayout
