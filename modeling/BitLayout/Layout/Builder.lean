import BitLayout.Layout.Error
import BitLayout.Text.Encoding.Name

/-!
# Building layouts

The checked constructors of layouts. Each takes values of any type and either returns a layout or
says what is wrong with the first bad argument. Truth values are no integers here.

## Main definitions

* `Build.sequence`, `Build.array`, `Build.branch`, `Build.bitField`, `Build.wideField`,
  `Build.byteSlice`, `Build.text`, `Build.padding`
-/

namespace BitLayout.Build

/-- The greatest width of a bit field. -/
def maxBitFieldWidth : Int := 31

/-- A width is an integer of at least one. -/
def checkWidth (subject : Subject) (width : Value) : Except LayoutError Int :=
  match width with
  | .int n => if n < 1 then .error (.widthTooSmall subject n) else .ok n
  | width => .error (.widthNotInteger subject width)

/-- A length is a count of at least zero or the name of a field. -/
def checkLength (subject : Subject) (length : Value) : Except LayoutError Length :=
  match length with
  | .text name => if name.isEmpty then .error (.lengthUnnamed subject) else .ok (.field name)
  | .int n => if n < 0 then .error (.lengthNegative subject n) else .ok (.literal n)
  | length => .error (.lengthNotCount subject length)

/-- A part of a layout is a layout. -/
def checkPart (place : LayoutPlace) (part : Value) : Except LayoutError Layout :=
  match part with
  | .ofLayout layout => .ok layout
  | part => .error (.partNotLayout place part.typeName)

/-- A slot from a name and a layout. Padding takes any name and keeps it only as a label. -/
def slotOfPair (index : Nat) (name part : Value) : Except LayoutError Slot := do
  let layout ← checkPart (.slot index) part
  match layout, name with
  | .padding width, .text label => .ok (.padding (.padding width) (some label))
  | .padding width, _ => .ok (.padding (.padding width) none)
  | layout, .embedMarker => .ok (.embedded layout)
  | layout, .text name =>
    if name.isEmpty then .error (.slotBadName index (.text name)) else .ok (.named name layout)
  | _, name => .error (.slotBadName index name)

/-- A slot from an argument: padding by itself, or a pair of name and layout. -/
def slot (index : Nat) (argument : Value) : Except LayoutError Slot :=
  match argument with
  | .ofLayout (.padding width) => .ok (.padding (.padding width) none)
  | .ofLayout layout => .error (.slotWithoutName index layout.kind)
  | .list [name, part] => slotOfPair index name part
  | .tuple [name, part] => slotOfPair index name part
  | .list items => .error (.slotWrongCount index items.length)
  | .tuple items => .error (.slotWrongCount index items.length)
  | argument => .error (.slotNotPair index argument.typeName)

/-- The slots from the arguments, of which the first is at position `index`. -/
def slots (index : Nat) : List Value → Except LayoutError (List Slot)
  | [] => .ok []
  | argument :: rest => do
    let first ← slot index argument
    let others ← slots (index + 1) rest
    .ok (first :: others)

/-- A record of fields in order. -/
def sequence (arguments : List Value) : Except LayoutError Layout := do
  let slots ← slots 0 arguments
  .ok (.sequence slots)

/-- Repetitions of one element. -/
def array (length element : Value) : Except LayoutError Layout := do
  let length ← checkLength .array length
  let element ← checkPart .element element
  .ok (.array length element)

/-- A case from its key and layout. The key has to be short enough for messages. -/
def case (key : Int) (part : Value) : Except LayoutError (Integer × Layout) :=
  let place := LayoutPlace.case key
  if place.name.isWritable then do
    let layout ← checkPart place part
    .ok (key, layout)
  else .error (.caseKeyTooLong key)

/-- The cases of a branch. -/
def cases : List (Value × Value) → Except LayoutError (List (Integer × Layout))
  | [] => .ok []
  | (.int key, part) :: rest => do
    let first ← case key part
    let others ← cases rest
    .ok (first :: others)
  | (key, _) :: _ => .error (.caseKeyNotInteger key)

/-- The layout for all other keys, if one is given. -/
def otherwise? (part : Value) : Except LayoutError (Option Layout) :=
  match part with
  | .null => .ok none
  | part => some <$> checkPart .otherwise part

/-- A layout chosen by the integer in a sibling field. -/
def branch (discriminant entries otherwise : Value) : Except LayoutError Layout :=
  match discriminant with
  | .text name =>
    if name.isEmpty then .error (.discriminantNotName discriminant)
    else match entries with
      | .dict entries => do
        let cases ← cases entries
        let otherwise ← otherwise? otherwise
        .ok (.branch name cases otherwise)
      | entries => .error (.casesNotMapping entries.typeName)
  | discriminant => .error (.discriminantNotName discriminant)

/-- An unsigned integer of 1 to 31 bits. -/
def bitField (width : Value) : Except LayoutError Layout := do
  let width ← checkWidth .bitField width
  if maxBitFieldWidth < width then .error (.widthTooLarge width)
  else .ok (.bitField width)

/-- An unsigned integer of any width. -/
def wideField (width : Value) : Except LayoutError Layout := do
  let width ← checkWidth .wideField width
  .ok (.wideField width)

/-- Raw bytes. -/
def byteSlice (length : Value) : Except LayoutError Layout := do
  let length ← checkLength .byteSlice length
  .ok (.byteSlice length)

/-- A text in an encoding, which must be known and convert between text and bytes. -/
def text (length encoding : Value) : Except LayoutError Layout :=
  match encoding with
  | .text name =>
    match EncodingName.find name with
    | .unusable fault => .error (.unusableEncodingName fault)
    | .unknown => .error (.unknownEncoding encoding)
    | .otherCodec => .error (.notTextEncoding name)
    | .encoding _ => do
      let length ← checkLength .text length
      .ok (.text length name)
  | encoding => .error (.unknownEncoding encoding)

/-- Bits without a value. -/
def padding (width : Value) : Except LayoutError Layout := do
  let width ← checkWidth .padding width
  .ok (.padding width)

/-- The encoding of a text for which none is named. -/
def defaultEncoding : Value := .text "utf-8"

/-- The width of a bit field for which none is given. -/
def defaultBitFieldWidth : Value := .int 1

end BitLayout.Build
