import BitLayout.Json.Reader
import BitLayout.Layout.Builder

/-!
# Values written in JSON

Every value has a form in JSON. Null, truth values, small integers, texts and lists are written as
such; anything else is an object with one member whose name starts with a dollar sign and tells the
type. Layouts are written as the calls that build them, so reading one runs the builders.

## Main definitions

* `Form.read`: a value from its form
* `Form.write`: the form of a value
-/

namespace BitLayout

/-- Why a form stands for no value. -/
inductive FormError where
  /-- A builder refuses its arguments. -/
  | layout (error : LayoutError)
  /-- A key whose content may change. -/
  | unhashableKey (typeName : Text)
  /-- Not the form of anything. -/
  | malformed

/-- The wording of a reason. -/
def FormError.message : FormError → Wording
  | .layout error => error.message
  | .unhashableKey typeName => "unhashable type: '" ++ typeName ++ "'"
  | .malformed => "not a value"

namespace Form

/-- The integers from here on in either direction are written in hexadecimal. -/
def plainLimit : Int := (1 <<< 53 : Nat)

/-- The number that hexadecimal digits spell. -/
def hexNat? (digits : Text) : Option Nat :=
  if digits.isEmpty then none
  else digits.foldl (fun n? c => do some (16 * (← n?) + (← c.hexValue?))) (some 0)

/-- An integer from its hexadecimal numeral. -/
def hexInt? (t : Text) : Option Int :=
  let (negative, t) := Decimal.splitSign t
  do
    let digits ← Text.dropLead? "0x" t
    let n ← hexNat? digits
    some (if negative then -(n : Int) else n)

/-- The hexadecimal numeral of an integer. -/
def hexText (n : Int) : Text :=
  (if n < 0 then ("-0x" : Text) else "0x") ++ Text.hex 1 n.natAbs

/-- The bytes that pairs of hexadecimal digits spell. -/
def hexBytes? : Text → Option (List UInt8)
  | [] => some []
  | [_] => none
  | a :: b :: rest => do
    let high ← a.hexValue?
    let low ← b.hexValue?
    let bytes ← hexBytes? rest
    some (UInt8.ofNat (16 * high + low) :: bytes)

/-- The code point that an item of a text form stands for. -/
def codePoint? : Value → Option CodePoint
  | .int n => if n < 0 then none else CodePoint.ofNat? n.toNat
  | _ => none

/-- The value of a form that holds only a text. -/
def textual? (type content : Text) : Option Value :=
  if type = ("$int" : Text) then .int <$> hexInt? content
  else if type = ("$float" : Text) then .float <$> Binary64.read? content
  else if type = ("$bytes" : Text) then .bytes .fixed <$> hexBytes? content
  else if type = ("$bytearray" : Text) then .bytes .growable <$> hexBytes? content
  else if type = ("$memoryview" : Text) then .bytes .view <$> hexBytes? content
  else none

/-- The layouts that have a name of their own. -/
def predefined? (name : Text) : Option Layout :=
  if name = ("BIT" : Text) then some .bit
  else if name = ("NIBBLE" : Text) then some .nibble
  else if name = ("BYTE" : Text) then some .byte
  else none

/-- A length taken as it is. -/
def uncheckedLength? : Value → Option Length
  | .text name => some (.field name)
  | count => .literal <$> count.integer?

/-- A width taken as it is. -/
def uncheckedWidth? (width : Value) : Option Integer := width.integer?

/-- A slot taken as it is; anything else becomes a foreign slot. -/
def uncheckedSlot : Value → Slot
  | .ofSlot slot => slot
  | value => .foreign value.typeName value.written

/-- A case taken as it is. -/
def uncheckedCase? : Value → Option (Integer × Layout)
  | .tuple [key, .ofLayout layout] => do
    let key ← key.integer?
    some (key, layout)
  | _ => none

/-- A branch from its parts. -/
def uncheckedBranch? (discriminant : Text) (cases : List Value) (otherwise : Option Layout) :
    Option Layout := do
  let cases ← cases.mapM uncheckedCase?
  some (.branch discriminant cases otherwise)

/-- A layout from its parts, without any check. -/
def uncheckedLayout? (name : Text) (arguments : List Value) : Option Layout :=
  if name = ("Node" : Text) then
    match arguments with
    | [] => some .abstract
    | _ => none
  else if name = ("Sequence" : Text) then
    match arguments with
    | [.tuple slots] => some (.sequence (slots.map uncheckedSlot))
    | _ => none
  else if name = ("Array" : Text) then
    match arguments with
    | [length, .ofLayout element] =>
      (fun length => .array length element) <$> uncheckedLength? length
    | _ => none
  else if name = ("Branch" : Text) then
    match arguments with
    | [.text discriminant, .tuple cases] => uncheckedBranch? discriminant cases none
    | [.text discriminant, .tuple cases, .null] => uncheckedBranch? discriminant cases none
    | [.text discriminant, .tuple cases, .ofLayout layout] =>
      uncheckedBranch? discriminant cases (some layout)
    | _ => none
  else if name = ("BitField" : Text) then
    match arguments with
    | [width] => .bitField <$> uncheckedWidth? width
    | _ => none
  else if name = ("WideField" : Text) then
    match arguments with
    | [width] => .wideField <$> uncheckedWidth? width
    | _ => none
  else if name = ("Padding" : Text) then
    match arguments with
    | [width] => .padding <$> uncheckedWidth? width
    | _ => none
  else if name = ("ByteSlice" : Text) then
    match arguments with
    | [length] => .byteSlice <$> uncheckedLength? length
    | _ => none
  else if name = ("Text" : Text) then
    match arguments with
    | [length] => (fun length => .text length "utf-8") <$> uncheckedLength? length
    | [length, .text encoding] =>
      (fun length => .text length encoding) <$> uncheckedLength? length
    | _ => none
  else none

/-- A slot from its parts, without any check. -/
def uncheckedSlot? (name : Text) (arguments : List Value) : Option Slot :=
  if name = ("NamedSlot" : Text) then
    match arguments with
    | [.text label, .ofLayout layout] => some (.named label layout)
    | _ => none
  else if name = ("EmbeddedSlot" : Text) then
    match arguments with
    | [.ofLayout layout] => some (.embedded layout)
    | _ => none
  else if name = ("PaddingSlot" : Text) then
    match arguments with
    | [.ofLayout layout] => some (.padding layout none)
    | [.ofLayout layout, .null] => some (.padding layout none)
    | [.ofLayout layout, .text label] => some (.padding layout (some label))
    | _ => none
  else none

/-- A layout or slot from its parts, without any check. -/
def unchecked? (name : Text) (arguments : List Value) : Option Value :=
  match uncheckedLayout? name arguments with
  | some layout => some (.ofLayout layout)
  | none => .ofSlot <$> uncheckedSlot? name arguments

/-- A layout from a builder and its arguments, `none` if there is no such builder or it takes a
different number of arguments. -/
def checked? (name : Text) (arguments : List Value) : Option (Except LayoutError Layout) :=
  if name = ("sequence" : Text) then some (Build.sequence arguments)
  else match arguments with
    | [] =>
      if name = ("bitfield" : Text) then some (Build.bitField Build.defaultBitFieldWidth) else none
    | [a] =>
      if name = ("bitfield" : Text) then some (Build.bitField a)
      else if name = ("widefield" : Text) then some (Build.wideField a)
      else if name = ("byteslice" : Text) then some (Build.byteSlice a)
      else if name = ("text" : Text) then some (Build.text a Build.defaultEncoding)
      else if name = ("padding" : Text) then some (Build.padding a)
      else none
    | [a, b] =>
      if name = ("array" : Text) then some (Build.array a b)
      else if name = ("branch" : Text) then some (Build.branch a b .null)
      else if name = ("text" : Text) then some (Build.text a b)
      else none
    | [a, b, c] => if name = ("branch" : Text) then some (Build.branch a b c) else none
    | _ => none

/-- The result of a builder call. -/
def call (name : Text) (arguments : List Value) : Except FormError Value :=
  match checked? name arguments with
  | some (.ok layout) => .ok (.ofLayout layout)
  | some (.error error) => .error (.layout error)
  | none =>
    match unchecked? name arguments with
    | some value => .ok value
    | none => .error .malformed

/-- Stores an entry under a key that must not change. -/
def addEntry (entries : Entries) (key value : Value) : Except FormError Entries :=
  match key.changeablePart? with
  | some typeName => .error (.unhashableKey typeName)
  | none => .ok (entries.insert key value)

mutual

/-- The value of a form. Arguments of builders are read from left to right before the builder
runs. -/
def read (form : Value) : Except FormError Value :=
  match form with
  | .null => .ok .null
  | .bool b => .ok (.bool b)
  | .int n => .ok (.int n)
  | .text t => .ok (.text t)
  | .list items => do
    let items ← readItems items
    .ok (.list items)
  | .dict [(.text type, .list items)] =>
    if type = ("$tuple" : Text) then do
      let items ← readItems items
      .ok (.tuple items)
    else if type = ("$dict" : Text) then do
      let entries ← readEntries [] items
      .ok (.dict entries)
    else if type = ("$str" : Text) then
      match items.mapM codePoint? with
      | some t => .ok (.text t)
      | none => .error .malformed
    else if type = ("$n" : Text) then
      match items with
      | .text name :: arguments => do
        let arguments ← readItems arguments
        call name arguments
      | _ => .error .malformed
    else .error .malformed
  | .dict [(.text type, .text content)] =>
    if type = ("$n" : Text) then
      match predefined? content with
      | some layout => .ok (.ofLayout layout)
      | none => .error .malformed
    else
      match textual? type content with
      | some value => .ok value
      | none => .error .malformed
  | .dict [(.text type, .bool true)] =>
    if type = ("$embed" : Text) then .ok .embedMarker else .error .malformed
  | _ => .error .malformed

/-- The values of forms one by one. -/
def readItems (items : List Value) : Except FormError (List Value) :=
  match items with
  | [] => .ok []
  | item :: rest => do
    let first ← read item
    let others ← readItems rest
    .ok (first :: others)

/-- The entries of pairs of forms, stored one by one. -/
def readEntries (entries : Entries) (pairs : List Value) : Except FormError Entries :=
  match pairs with
  | [] => .ok entries
  | .list [key, value] :: rest => do
    let key ← read key
    let value ← read value
    let entries ← addEntry entries key value
    readEntries entries rest
  | _ => .error .malformed

end

/-- A form that tells a type. -/
def typed (type : Text) (content : Value) : Value := .dict [(.text type, content)]

/-- The form of a text. -/
def writeText (t : Text) : Value :=
  if t.any CodePoint.isSurrogate then
    typed "$str" (.list (t.map fun c => .int c.toNat))
  else .text t

/-- The form of an integer. -/
def writeInt (n : Int) : Value :=
  if -plainLimit < n && n < plainLimit then .int n else typed "$int" (.text (hexText n))

mutual

/-- The form of a value. A layout, slot or other object has none and is written as null. -/
def write (value : Value) : Value :=
  match value with
  | .null => .null
  | .bool b => .bool b
  | .int n => writeInt n
  | .float x => typed "$float" (.text x.render)
  | .text t => writeText t
  | .bytes .fixed data => typed "$bytes" (.text (Text.hexOfBytes data))
  | .bytes .growable data => typed "$bytearray" (.text (Text.hexOfBytes data))
  | .bytes .view data => typed "$memoryview" (.text (Text.hexOfBytes data))
  | .list items => .list (writeItems items)
  | .tuple items => typed "$tuple" (.list (writeItems items))
  | .dict entries => typed "$dict" (.list (writeEntries entries))
  | .embedMarker => typed "$embed" (.bool true)
  | .ofLayout _ => .null
  | .ofSlot _ => .null
  | .other .. => .null

/-- The forms of values one by one. -/
def writeItems (items : List Value) : List Value :=
  match items with
  | [] => []
  | item :: rest => write item :: writeItems rest

/-- The forms of entries one by one. -/
def writeEntries (entries : List (Value × Value)) : List Value :=
  match entries with
  | [] => []
  | (key, value) :: rest => .list [write key, write value] :: writeEntries rest

end

end Form

end BitLayout
