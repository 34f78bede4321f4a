import BitLayout.Layout.Basic
import BitLayout.Text.Quoted

/-!
# Written form of layouts

How a message shows a layout: the name of its type with its fields in parentheses.

## Main definitions

* `Length.written`, `Layout.written`, `Slot.written`
* `writtenTuple`: members in parentheses, a single one with a comma after it
-/

namespace BitLayout

/-- A length as a message shows it. -/
def Length.written : Length → Wording
  | .literal count => count.written
  | .field name => name.quoted

/-- Members in parentheses, a single one with a comma after it. -/
def writtenTuple (members : List Wording) : Wording :=
  match members with
  | [member] => "(" ++ member ++ ",)"
  | members => "(" ++ Wording.joined ", " members ++ ")"

/-- What stands where there is nothing. -/
def writtenNothing : Wording := "None"

mutual

/-- A layout as a message shows it. -/
def Layout.written : Layout → Wording
  | .abstract => "Node()"
  | .sequence slots => "Sequence(slots=" ++ writtenTuple (writtenSlots slots) ++ ")"
  | .array length element =>
    "Array(length=" ++ length.written ++ ", element=" ++ element.written ++ ")"
  | .branch discriminant cases otherwise =>
    "Branch(discriminant=" ++ discriminant.quoted ++ ", cases=" ++
      writtenTuple (writtenCases cases) ++ ", else_case=" ++
      (match otherwise with
        | none => writtenNothing
        | some layout => layout.written) ++ ")"
  | .bitField width => "BitField(width=" ++ width.written ++ ")"
  | .wideField width => "WideField(width=" ++ width.written ++ ")"
  | .byteSlice length => "ByteSlice(length=" ++ length.written ++ ")"
  | .text length encoding =>
    "Text(length=" ++ length.written ++ ", encoding=" ++ encoding.quoted ++ ")"
  | .padding width => "Padding(width=" ++ width.written ++ ")"

/-- A slot as a message shows it. -/
def Slot.written : Slot → Wording
  | .named name layout =>
    "NamedSlot(name=" ++ name.quoted ++ ", node=" ++ layout.written ++ ")"
  | .embedded layout => "EmbeddedSlot(node=" ++ layout.written ++ ")"
  | .padding layout label =>
    "PaddingSlot(node=" ++ layout.written ++ ", label=" ++
      (match label with
        | none => writtenNothing
        | some label => label.quoted) ++ ")"
  | .foreign _ written => written

/-- The slots of a sequence one by one. -/
def writtenSlots : List Slot → List Wording
  | [] => []
  | slot :: rest => slot.written :: writtenSlots rest

/-- The cases of a branch one by one, each a pair of key and layout. -/
def writtenCases : List (Integer × Layout) → List Wording
  | [] => []
  | (key, layout) :: rest =>
    writtenTuple [key.written, layout.written] :: writtenCases rest

end

end BitLayout
