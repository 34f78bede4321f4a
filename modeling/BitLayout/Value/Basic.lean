import BitLayout.Layout.Equality
import BitLayout.Number.Binary64

/-!
# Values

Whatever a caller hands over or gets back: the values that layouts read and write, and the other
things a builder, an encoder or a record may be given by mistake.

## Main definitions

* `Value`, `Value.typeName`
* `Value.equals`: equality, in which truth values and doubles are numbers, byte strings compare by
  content, and records by their entries in any order
* `Value.integer?`, `Value.ofInteger`: the integers among the values
* `Entries`: the entries of a record in insertion order, with `get?`, `insert` and `merge`
-/

namespace BitLayout

/-- How a byte string is held: fixed, growable, or as an open view of other memory. -/
inductive ByteHolder where
  | fixed
  | growable
  | view
deriving DecidableEq

/-- A value of any type. -/
inductive Value where
  | null
  | bool (b : Bool)
  | int (n : Int)
  | float (x : Binary64)
  | text (t : Text)
  | bytes (holder : ByteHolder) (data : List UInt8)
  | list (items : List Value)
  | tuple (items : List Value)
  /-- Keys and values in insertion order, no key twice. -/
  | dict (entries : List (Value × Value))
  /-- The slot name that asks for a record to be merged into the enclosing one. -/
  | embedMarker
  | ofLayout (layout : Layout)
  | ofSlot (slot : Slot)
  /-- An object of no type above, known only by the name of its type and its written form. -/
  | other (typeName : Text) (written : Wording)

namespace Value

/-- A fixed byte string. -/
abbrev ofBytes (data : List UInt8) : Value := .bytes .fixed data

/-- The integer that a value is, if it is one. -/
def integer? : Value → Option Integer
  | .int n => some (.number n)
  | .bool b => some (.truth b)
  | _ => none

/-- An integer as a value of its spelling. -/
def ofInteger : Integer → Value
  | .number n => .int n
  | .truth b => .bool b

/-- The name of the type of a value. -/
def typeName : Value → Text
  | .null => "NoneType"
  | .bool _ => "bool"
  | .int _ => "int"
  | .float _ => "float"
  | .text _ => "str"
  | .bytes .fixed _ => "bytes"
  | .bytes .growable _ => "bytearray"
  | .bytes .view _ => "memoryview"
  | .list _ => "list"
  | .tuple _ => "tuple"
  | .dict _ => "dict"
  | .embedMarker => "_EmbedMarker"
  | .ofLayout layout => layout.kind.typeName
  | .ofSlot slot => slot.typeName
  | .other name _ => name

/-- Numerical equality of two values, `none` if one of them is no number. -/
def equalNumbers? (a b : Value) : Option Bool :=
  match a, b with
  | .float x, .float y => some (x.equals y)
  | .float x, b => b.integer?.map fun n => x.toInt? == some n.toInt
  | a, .float y => a.integer?.map fun n => y.toInt? == some n.toInt
  | a, b => do
    let m ← a.integer?
    let n ← b.integer?
    some (m.toInt == n.toInt)

mutual

/-- Equality of values. -/
def equals : Value → Value → Bool
  | .null, .null => true
  | .text s, .text t => s == t
  | .bytes _ data, .bytes _ data' => data == data'
  | .list items, .list items' => equalItems items items'
  | .tuple items, .tuple items' => equalItems items items'
  | .dict entries, .dict entries' =>
    entries.length == entries'.length && equalEntries entries entries'
  | .embedMarker, .embedMarker => true
  | .ofLayout layout, .ofLayout layout' => layout.same layout'
  | .ofSlot slot, .ofSlot slot' => slot.same slot'
  | .other typeName written, .other typeName' written' =>
    typeName == typeName' && written == written'
  | a, b => (equalNumbers? a b).getD false

/-- Equality position by position. -/
def equalItems : List Value → List Value → Bool
  | [], [] => true
  | a :: rest, b :: rest' => a.equals b && equalItems rest rest'
  | _, _ => false

/-- Whether each of the first entries has an equal one among the second. -/
def equalEntries : List (Value × Value) → List (Value × Value) → Bool
  | [], _ => true
  | (key, value) :: rest, entries =>
    (entries.any fun (key', value') => key.equals key' && value.equals value') &&
      equalEntries rest entries

end

mutual

/-- The first part of a value that cannot be a key because its content may change, by the name of
its type. -/
def changeablePart? : Value → Option Text
  | .list _ => some "list"
  | .dict _ => some "dict"
  | .bytes .growable _ => some "bytearray"
  | .tuple items => changeableItem? items
  | _ => none

/-- The first such part among several values. -/
def changeableItem? : List Value → Option Text
  | [] => none
  | item :: rest =>
    match item.changeablePart? with
    | some name => some name
    | none => changeableItem? rest

end

end Value

/-- The entries of a record in insertion order. -/
abbrev Entries := List (Value × Value)

namespace Entries

/-- The value stored under a key. -/
def get? : Entries → Value → Option Value
  | [], _ => none
  | (key, value) :: rest, wanted => if key.equals wanted then some value else get? rest wanted

/-- The value stored under a field name. -/
def field? (entries : Entries) (name : Text) : Option Value := entries.get? (.text name)

/-- Stores a value under a key. A key already there keeps its place and its spelling. -/
def insert : Entries → Value → Value → Entries
  | [], newKey, newValue => [(newKey, newValue)]
  | (key, value) :: rest, newKey, newValue =>
    if key.equals newKey then (key, newValue) :: rest
    else (key, value) :: insert rest newKey newValue

/-- Stores all entries of a second record, in order. -/
def merge (entries added : Entries) : Entries :=
  added.foldl (fun entries (key, value) => entries.insert key value) entries

/-- A record from keys and values that may repeat. -/
def ofList (entries : List (Value × Value)) : Entries := merge [] entries

/-- The keys in order. -/
def keys (entries : Entries) : List Value := entries.map Prod.fst

end Entries

end BitLayout
