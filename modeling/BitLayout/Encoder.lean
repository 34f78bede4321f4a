import BitLayout.Bits.Writer
import BitLayout.Scope

/-!
# Encoding

A layout writes a value after the bits written so far. Integers are reduced to the width of their
field, records may have fields that the layout does not name, and the literal length of bytes and
texts is not compared with what is written. Numbers wider than the memory has room for are refused.

## Main definitions

* `Layout.encode`: one layout at the end of a writer
* `Layout.write`: a whole value
* `Layout.encodeValue`, `Layout.encodeWithin`: the bytes of a whole value
-/

namespace BitLayout

/-- Writes whole bytes. The place is checked before the length is looked up. -/
def writeSlice (kind : Layout.Kind) (length : Length) (raw : List UInt8) (scope : Scope)
    (w : BitWriter) : Except Failure BitWriter :=
  if w.bitOffset ≠ 0 then .error (.here (.misaligned kind w.bitOffset))
  else do
    let _ ← (length.resolve scope).mapError .here
    (w.writeBytes raw).mapError .cursor

/-- The bytes that spell a text. -/
def writeText (encoding : Text) (t : Text) : Except Failure (List UInt8) :=
  match EncodingName.encode encoding t with
  | .ok raw => .ok raw
  | .error (.unknown name) => .error (.unknownEncoding name)
  | .error (.otherCodec name) => .error (.notTextEncoding name false)
  | .error (.unusable (.unencodable fault)) => .error (.here (.unencodableText encoding fault))
  | .error (.unusable fault) => .error (.unusableEncodingName fault)
  | .error (.content fault) => .error (.here (.unencodableText encoding fault))

/-- Writes an integer of any sign and size. -/
def writeInteger (memory : Memory) (kind : Layout.Kind) (width : Integer) (value : Value)
    (w : BitWriter) : Except Failure BitWriter :=
  match value with
  | .null => .error (.here (.missingInteger kind))
  | value =>
    match value.integer? with
    | none => .error (.here (.notInteger kind value.typeName))
    | some n => (w.writeIntWithin memory n.toInt width).mapError .cursor

/-- Writes the zero bits of padding. -/
def writePadding (memory : Memory) (width : Integer) (w : BitWriter) : Except Failure BitWriter :=
  (w.writeZeros memory width).mapError .cursor

/-- The width of a layout that has one. -/
def Layout.width? : Layout → Option Integer
  | .bitField width => some width
  | .wideField width => some width
  | .padding width => some width
  | _ => none

/-- Writes items, of which the first is at position `index`. -/
def encodeItems (item : Value → BitWriter → Except Failure BitWriter) (index : Nat)
    (items : List Value) (w : BitWriter) : Except Failure BitWriter :=
  match items with
  | [] => .ok w
  | first :: others => do
    let w ← (item first w).mapError (.within (.index (index : Nat)))
    encodeItems item (index + 1) others w

/-- The items of a list or tuple. -/
def Value.items? : Value → Option (List Value)
  | .list items => some items
  | .tuple items => some items
  | _ => none

mutual

/-- Writes one layout. The elements of an array do not see the record around it. -/
def Layout.encode (memory : Memory) (layout : Layout) (value : Value) (scope : Scope)
    (w : BitWriter) : Except Failure BitWriter :=
  match layout with
  | .abstract => .error (.layout (.unsupported .abstract))
  | .sequence slots =>
    match value with
    | .dict record => encodeSlots memory slots record w
    | value => .error (.here (.notRecord value.typeName))
  | .array length element =>
    match value.items? with
    | none => .error (.here (.notList value.typeName))
    | some items => do
      let count ← (length.resolve scope).mapError .here
      if count.toInt ≠ items.length then .error (.here (.wrongLength count items.length))
      else encodeItems (fun item w => element.encode memory item none w) 0 items w
  | .branch discriminant cases otherwise =>
    match scope with
    | none => .error (.here .branchOutsideSequence)
    | some record => do
      let key ← (resolveField (some record) discriminant).mapError .here
      match encodeCase? memory cases key value scope w with
      | some outcome => outcome
      | none =>
        match otherwise with
        | some layout => layout.encode memory value scope w
        | none => .error (.here (.noMatchingCase discriminant key))
  | .bitField width => writeInteger memory .bitField width value w
  | .wideField width => writeInteger memory .wideField width value w
  | .byteSlice length =>
    match value with
    | .bytes _ raw => writeSlice .byteSlice length raw scope w
    | value => .error (.here (.notBytes value.typeName))
  | .text length encoding =>
    match value with
    | .text t => do
      let raw ← writeText encoding t
      writeSlice .text length raw scope w
    | value => .error (.here (.notText value.typeName))
  | .padding width => writePadding memory width w
termination_by structural layout

/-- Writes slots from the fields of a record, which is the scope of each. An embedded layout gets
the whole record, and padding only tells how many zero bits to write. -/
def encodeSlots (memory : Memory) (slots : List Slot) (record : Entries) (w : BitWriter) :
    Except Failure BitWriter :=
  match slots with
  | [] => .ok w
  | .named name layout :: rest => do
    let value := (record.field? name).getD .null
    let w ← (layout.encode memory value (some record) w).mapError (.within (.field name))
    encodeSlots memory rest record w
  | .embedded layout :: rest => do
    let w ← layout.encode memory (.dict record) (some record) w
    encodeSlots memory rest record w
  | .padding layout _ :: rest => do
    match layout.width? with
    | some width => do
      let w ← writePadding memory width w
      encodeSlots memory rest record w
    | none => .error (.layout (.layoutWithoutWidth layout.kind.typeName))
  | .foreign typeName _ :: _ => .error (.layout (.unsupportedSlot typeName))
termination_by structural slots

/-- Writes by the first case with the given key, if there is one. -/
def encodeCase? (memory : Memory) (cases : List (Integer × Layout)) (key : Integer)
    (value : Value) (scope : Scope) (w : BitWriter) : Option (Except Failure BitWriter) :=
  match cases with
  | [] => none
  | (k, layout) :: rest =>
    if k.same key then some (layout.encode memory value scope w)
    else encodeCase? memory rest key value scope w
termination_by structural cases

end

namespace Layout

/-- Writes a value from the first bit on, outside any sequence, as far as there is room. -/
def writeWithin (memory : Memory) (layout : Layout) (value : Value) : Except Failure BitWriter :=
  layout.encode memory value none BitWriter.empty

/-- The bytes of a value, the last one filled up with zero bits, if there is room for them. -/
def encodeWithin (memory : Memory) (layout : Layout) (value : Value) :
    Except Failure (List UInt8) :=
  BitWriter.toBytes <$> layout.writeWithin memory value

/-- Writes a value from the first bit on, outside any sequence. -/
def write (layout : Layout) (value : Value) : Except Failure BitWriter :=
  layout.writeWithin .unbounded value

/-- The bytes of a value, the last one filled up with zero bits. -/
def encodeValue (layout : Layout) (value : Value) : Except Failure (List UInt8) :=
  layout.encodeWithin .unbounded value

end Layout

end BitLayout
