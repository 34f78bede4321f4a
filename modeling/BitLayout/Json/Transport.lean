import BitLayout.Value.Basic

/-!
# Byte strings in JSON

JSON has no byte strings, so a byte string travels as an object with the single member `__bytes__`
that spells it in hexadecimal. A record that would be mistaken for such a wrapper travels inside
the single member `__record__` of another object.

## Main definitions

* `Value.toTransport`: byte strings wrapped
* `Value.ofTransport`: wrappers opened
* `TransportError`: a wrapper with a wrong content
-/

namespace BitLayout

/-- The name of the member that holds a byte string. -/
def bytesKey : Text := "__bytes__"

/-- The name of the member that holds a record. -/
def recordKey : Text := "__record__"

/-- Whether a record has exactly one entry, under the given name. -/
def Entries.isSingleton (entries : Entries) (name : Text) : Bool :=
  match entries with
  | [(key, _)] => key.equals (.text name)
  | _ => false

mutual

/-- The value with every byte string wrapped and every record that looks like a wrapper enclosed in
another one. -/
def Value.toTransport : Value → Value
  | .dict entries =>
    let converted := entriesToTransport entries
    if Entries.isSingleton entries bytesKey || Entries.isSingleton entries recordKey then
      .dict [(.text recordKey, .dict converted)]
    else .dict converted
  | .list items => .list (itemsToTransport items)
  | .bytes .fixed data => .dict [(.text bytesKey, .text (Text.hexOfBytes data))]
  | .bytes .growable data => .dict [(.text bytesKey, .text (Text.hexOfBytes data))]
  | value => value

/-- The items of a list one by one. -/
def itemsToTransport : List Value → List Value
  | [] => []
  | item :: rest => item.toTransport :: itemsToTransport rest

/-- The entries of a record one by one. -/
def entriesToTransport : List (Value × Value) → List (Value × Value)
  | [] => []
  | (key, value) :: rest => (key, value.toTransport) :: entriesToTransport rest

end

/-- Why a wrapper cannot be opened. -/
inductive TransportError where
  /-- A byte string spelled by something other than a text. -/
  | bytesNotText (typeName : Text)
  /-- No hexadecimal digit at this position. -/
  | notHexadecimal (position : Nat)
  /-- A record wrapper around something else. -/
  | notRecord (typeName : Text)
deriving DecidableEq

/-- The wording of a reason. -/
def TransportError.message : TransportError → Text
  | .bytesNotText typeName =>
    "fromhex() argument must be str, not " ++
      (if typeName = Value.typeName .null then ("None" : Text) else typeName)
  | .notHexadecimal position =>
    "non-hexadecimal number found in fromhex() arg at position " ++ Text.ofNat position
  | .notRecord typeName => "'" ++ typeName ++ "' object has no attribute 'items'"

/-- White space of ASCII, which may stand before and after the two digits of a byte. -/
def isHexBlank (c : CodePoint) : Bool := c.toNat = 0x20 || 0x09 ≤ c.toNat && c.toNat ≤ 0x0D

/-- The bytes that pairs of hexadecimal digits spell, the first of them at `position`. -/
def bytesOfPairs (position : Nat) : Text → Except TransportError (List UInt8)
  | [] => .ok []
  | c :: rest =>
    if isHexBlank c then bytesOfPairs (position + 1) rest
    else match c.hexValue? with
      | none => .error (.notHexadecimal position)
      | some high =>
        match rest with
        | [] => .error (.notHexadecimal (position + 1))
        | d :: rest =>
          match d.hexValue? with
          | none => .error (.notHexadecimal (position + 1))
          | some low => do
            let bytes ← bytesOfPairs (position + 2) rest
            .ok (UInt8.ofNat (16 * high + low) :: bytes)

/-- The bytes that a text spells. A code point beyond ASCII is reported before anything else. -/
def bytesOfHex (t : Text) : Except TransportError (List UInt8) :=
  match t.findIdx? (0x80 ≤ ·.toNat) with
  | some position => .error (.notHexadecimal position)
  | none => bytesOfPairs 0 t

mutual

/-- The value with every wrapper opened. -/
def Value.ofTransport : Value → Except TransportError Value
  | .dict entries =>
    match entries with
    | [] => .ok (.dict [])
    | (key, content) :: rest =>
      if rest.isEmpty && key.equals (.text bytesKey) then
        match content with
        | .text digits => do
          let data ← bytesOfHex digits
          .ok (.ofBytes data)
        | content => .error (.bytesNotText content.typeName)
      else if rest.isEmpty && key.equals (.text recordKey) then
        match content with
        | .dict inner => do
          let inner ← entriesOfTransport inner
          .ok (.dict inner)
        | content => .error (.notRecord content.typeName)
      else do
        let first ← content.ofTransport
        let others ← entriesOfTransport rest
        .ok (.dict ((key, first) :: others))
  | .list items => do
    let items ← itemsOfTransport items
    .ok (.list items)
  | value => .ok value

/-- The items of a list one by one. -/
def itemsOfTransport : List Value → Except TransportError (List Value)
  | [] => .ok []
  | item :: rest => do
    let first ← item.ofTransport
    let others ← itemsOfTransport rest
    .ok (first :: others)

/-- The entries of a record one by one. -/
def entriesOfTransport : List (Value × Value) → Except TransportError (List (Value × Value))
  | [] => .ok []
  | (key, value) :: rest => do
    let first ← value.ofTransport
    let others ← entriesOfTransport rest
    .ok ((key, first) :: others)

end

end BitLayout
