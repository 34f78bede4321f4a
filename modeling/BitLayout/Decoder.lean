import BitLayout.Bits.Reader
import BitLayout.Scope

/-!
# Decoding

A layout reads the front of the remaining bits into a value. Nothing is read twice.

## Main definitions

* `Layout.decode`: one layout at the place of a reader
* `Layout.read`: a whole byte string from its first bit
* `Layout.decodeBytes`: the same, refusing whole bytes left over if asked to
-/

namespace BitLayout

/-- A request to a reader on behalf of a layout: running out of bits is a truncation. -/
def ofCursor {α : Type} (kind : Layout.Kind) : Except CursorError α → Except Failure α
  | .ok a => .ok a
  | .error (.outOfBits need available) => .error (.here (.truncated kind need available))
  | .error error => .error (.cursor error)

/-- Reads whole bytes. The place is checked before the length is looked up. -/
def readSlice (kind : Layout.Kind) (length : Length) (scope : Scope) (r : BitReader) :
    Except Failure (List UInt8 × BitReader) :=
  if r.bitOffset ≠ 0 then .error (.here (.misaligned kind r.bitOffset))
  else do
    let count ← (length.resolve scope).mapError .here
    ofCursor kind (r.readBytes count)

/-- The text that raw bytes spell. -/
def readText (encoding : Text) (raw : List UInt8) : Except Failure Text :=
  match EncodingName.decode encoding raw with
  | .ok t => .ok t
  | .error (.unknown name) => .error (.unknownEncoding name)
  | .error (.otherCodec name) => .error (.notTextEncoding name true)
  | .error (.unusable fault) => .error (.unusableEncodingName fault)
  | .error (.content fault) => .error (.here (.undecodableText encoding fault))

/-- Reads `count` items, of which the first is at position `index`. -/
def decodeItems (item : BitReader → Except Failure (Value × BitReader)) (count index : Nat)
    (r : BitReader) : Except Failure (List Value × BitReader) :=
  match count with
  | 0 => .ok ([], r)
  | count + 1 => do
    let (first, r) ← (item r).mapError (.within (.index (index : Nat)))
    let (others, r) ← decodeItems item count (index + 1) r
    .ok (first :: others, r)

/-- The step to a padding slot: its label, unless it has none or an empty one. -/
def withinLabel (label : Option Text) (failure : Failure) : Failure :=
  match label with
  | some (c :: rest) => failure.within (.field (c :: rest))
  | _ => failure

mutual

/-- Reads one layout. The elements of an array do not see the record around it. -/
def Layout.decode (layout : Layout) (scope : Scope) (r : BitReader) :
    Except Failure (Value × BitReader) :=
  match layout with
  | .abstract => .error (.layout (.unsupported .abstract))
  | .sequence slots => do
    let (record, r) ← decodeSlots slots [] r
    .ok (.dict record, r)
  | .array length element => do
    let count ← (length.resolve scope).mapError .here
    let (items, r) ← decodeItems (fun r => element.decode none r) count.toNat 0 r
    .ok (.list items, r)
  | .branch discriminant cases otherwise =>
    match scope with
    | none => .error (.here .branchOutsideSequence)
    | some record => do
      let key ← (resolveField (some record) discriminant).mapError .here
      match decodeCase? cases key scope r with
      | some outcome => outcome
      | none =>
        match otherwise with
        | some layout => layout.decode scope r
        | none => .error (.here (.noMatchingCase discriminant key))
  | .bitField width => do
    let (n, r) ← ofCursor .bitField (r.readNat width)
    .ok (.int n, r)
  | .wideField width => do
    let (n, r) ← ofCursor .wideField (r.readNat width)
    .ok (.int n, r)
  | .byteSlice length => do
    let (raw, r) ← readSlice .byteSlice length scope r
    .ok (.ofBytes raw, r)
  | .text length encoding => do
    let (raw, r) ← readSlice .text length scope r
    let t ← readText encoding raw
    .ok (.text t, r)
  | .padding width => do
    let r ← ofCursor .padding (r.skip width)
    .ok (.null, r)
termination_by structural layout

/-- Reads slots after the fields in `record`, which are the scope of the next slot. Later fields of
a name replace the value of earlier ones. -/
def decodeSlots (slots : List Slot) (record : Entries) (r : BitReader) :
    Except Failure (Entries × BitReader) :=
  match slots with
  | [] => .ok (record, r)
  | .named name layout :: rest => do
    let (value, r) ← (layout.decode (some record) r).mapError (.within (.field name))
    decodeSlots rest (record.insert (.text name) value) r
  | .embedded layout :: rest => do
    let (value, r) ← layout.decode (some record) r
    match value with
    | .dict fields => decodeSlots rest (record.merge fields) r
    | value => .error (.here (.embeddedNotRecord layout.kind value.typeName))
  | .padding layout label :: rest => do
    let (_, r) ← (layout.decode (some record) r).mapError (withinLabel label)
    decodeSlots rest record r
  | .foreign typeName _ :: _ => .error (.layout (.unsupportedSlot typeName))
termination_by structural slots

/-- Reads the first case with the given key, if there is one. -/
def decodeCase? (cases : List (Integer × Layout)) (key : Integer) (scope : Scope) (r : BitReader) :
    Option (Except Failure (Value × BitReader)) :=
  match cases with
  | [] => none
  | (k, layout) :: rest =>
    if k.same key then some (layout.decode scope r) else decodeCase? rest key scope r
termination_by structural cases

end

namespace Layout

/-- Reads a byte string from its first bit, outside any sequence. -/
def read (layout : Layout) (data : List UInt8) : Except Failure (Value × BitReader) :=
  layout.decode none (BitReader.ofBytes data)

/-- The value of a byte string. A strict reading refuses whole bytes left over; bits left over in
the last byte are none. -/
def decodeBytes (layout : Layout) (data : List UInt8) (strict : Bool) : Except Failure Value := do
  let (value, r) ← layout.read data
  if strict && r.trailingBytes ≠ 0 then
    .error (.here (.trailingBytes r.trailingBytes layout.kind))
  else .ok value

end Layout

end BitLayout
