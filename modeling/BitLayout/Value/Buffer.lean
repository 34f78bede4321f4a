import BitLayout.Bits.Memory
import BitLayout.Value.Basic

/-!
# Values as byte buffers

What a caller may hand over as the data to decode: byte strings, collections of small integers, and
an integer for that many zero bytes. A byte string under construction takes less: byte strings and
collections of small integers.

## Main definitions

* `BufferError`, `BufferError.message`
* `Value.toBuffer`: the bytes to decode
* `Value.toAddition`: the bytes to add to those already there
-/

namespace BitLayout

/-- Why a value is no byte buffer. -/
inductive BufferError where
  /-- A member that is no integer. -/
  | memberNotInteger (typeName : Text)
  /-- A member outside the range of a byte. -/
  | memberNotByte
  /-- A member to be added that is outside the range of a byte. -/
  | additionNotByte
  | negativeCount
  | countTooLarge
  /-- More zero bytes than a byte string can hold. -/
  | tooManyBytes
  /-- More zero bytes than there is room for. -/
  | outOfMemory
  | textWithoutEncoding
  | notBuffer (typeName : Text)
  /-- Something without members to add. -/
  | notAddition (typeName : Text)
deriving DecidableEq

namespace BufferError

/-- The wording of a reason. -/
def message : BufferError → Text
  | .memberNotInteger typeName =>
    "'" ++ typeName ++ "' object cannot be interpreted as an integer"
  | .memberNotByte => "bytes must be in range(0, 256)"
  | .additionNotByte => "byte must be in range(0, 256)"
  | .negativeCount => "negative count"
  | .countTooLarge => "cannot fit 'int' into an index-sized integer"
  | .tooManyBytes => "byte string is too large"
  | .outOfMemory => ""
  | .textWithoutEncoding => "string argument without an encoding"
  | .notBuffer typeName => "cannot convert '" ++ typeName ++ "' object to bytes"
  | .notAddition typeName => "can't extend bytearray with " ++ typeName

end BufferError

/-- The least integer that is too large for a count of anything. -/
def countLimit : Int := (1 <<< 63 : Nat)

/-- The greatest length of a byte string. -/
def maxByteCount : Int := countLimit - 34

/-- As many zero bytes as an integer says. -/
def zeroBytes (memory : Memory) (count : Int) : Except BufferError (List UInt8) :=
  if countLimit ≤ count || count < -countLimit then .error .countTooLarge
  else if count < 0 then .error .negativeCount
  else if maxByteCount < count then .error .tooManyBytes
  else if memory.hasRoom (8 * count.toNat) then .ok (List.replicate count.toNat 0)
  else .error .outOfMemory

namespace Value

/-- The byte that a member of a collection stands for; `outOfRange` is the error for an integer that
is no byte. -/
def toByte (outOfRange : BufferError) (member : Value) : Except BufferError UInt8 :=
  match member.integer? with
  | none => .error (.memberNotInteger member.typeName)
  | some n =>
    if 0 ≤ n.toInt && n.toInt < 256 then .ok (UInt8.ofNat n.toNat)
    else .error outOfRange

/-- The members of a collection. A record has its keys. -/
def members? : Value → Option (List Value)
  | .list items => some items
  | .tuple items => some items
  | .dict entries => some (Entries.keys entries)
  | _ => none

/-- The bytes that a value stands for as a buffer. -/
def toBuffer (memory : Memory) (value : Value) : Except BufferError (List UInt8) :=
  match value with
  | .bytes _ data => .ok data
  | .int n => zeroBytes memory n
  | .bool b => zeroBytes memory b.toInt
  | .text _ => .error .textWithoutEncoding
  | value =>
    match value.members? with
    | some members => members.mapM (toByte .memberNotByte)
    | none => .error (.notBuffer value.typeName)

/-- The bytes that a value adds to a byte string. The members of a text are texts. -/
def toAddition (value : Value) : Except BufferError (List UInt8) :=
  match value with
  | .bytes _ data => .ok data
  | .text t => if t.isEmpty then .ok [] else .error (.memberNotInteger value.typeName)
  | value =>
    match value.members? with
    | some members => members.mapM (toByte .additionNotByte)
    | none => .error (.notAddition value.typeName)

end Value

end BitLayout
