import BitLayout.Bits.Basic

/-!
# Reading bits

A reader is a byte string with a position in it, a byte index and a bit offset. It only moves
forward, and a refused request does not move it.

## Main definitions

* `BitReader`, with the views `BitReader.position` and `BitReader.remaining`
* `BitReader.readNat`: an unsigned number of any width
* `BitReader.skip`, `BitReader.readBytes`
* `BitReader.trailingBytes`: the whole bytes that no read has touched
-/

namespace BitLayout

/-- A byte string and a place in it. -/
structure BitReader where
  data : Array UInt8
  byteIndex : Nat
  bitOffset : Nat

namespace BitReader

/-- The start of a byte string. -/
def ofBytes (data : List UInt8) : BitReader := ⟨data.toArray, 0, 0⟩

/-- The number of bits before the current place. -/
def position (r : BitReader) : Nat := 8 * r.byteIndex + r.bitOffset

/-- The number of bits from the current place on. -/
def bitsRemaining (r : BitReader) : Nat := 8 * r.data.size - r.position

/-- The bits from the current place on. -/
def remaining (r : BitReader) : List Bool := (bitsOfBytes r.data.toList).drop r.position

/-- The place `count` bits further on. -/
def advance (r : BitReader) (count : Nat) : BitReader :=
  let finish := r.bitOffset + count
  { r with byteIndex := r.byteIndex + finish / 8, bitOffset := finish % 8 }

/-- Checks that `count` bits can be taken. -/
def require (r : BitReader) (count : Integer) : Except CursorError Unit :=
  if count.toInt < 0 then .error (.countNegative count)
  else if r.bitsRemaining < count.toNat then .error (.outOfBits count r.bitsRemaining)
  else .ok ()

/-- Reads an unsigned number: the bytes that hold it form one number, from which it is cut. -/
def readNat (r : BitReader) (width : Integer) : Except CursorError (Nat × BitReader) :=
  if width.toInt < 1 then .error (.widthNotPositive width)
  else do
    r.require width
    let width := width.toNat
    let finish := r.bitOffset + width
    let count := (finish + 7) / 8
    let window := natOfBytes (r.data.extract r.byteIndex (r.byteIndex + count)).toList
    .ok ((window >>> (8 * count - finish)) % (1 <<< width), r.advance width)

/-- Passes over bits without reading them. -/
def skip (r : BitReader) (count : Integer) : Except CursorError BitReader := do
  r.require count
  .ok (r.advance count.toNat)

/-- Reads whole bytes, which must start on a byte boundary. -/
def readBytes (r : BitReader) (count : Integer) : Except CursorError (List UInt8 × BitReader) :=
  if r.bitOffset ≠ 0 then .error (.unalignedRead r.bitOffset)
  else do
    r.require (.number (count.toInt * 8))
    let count := count.toNat
    .ok ((r.data.extract r.byteIndex (r.byteIndex + count)).toList,
      { r with byteIndex := r.byteIndex + count })

/-- The whole bytes after the current place, not counting the one it lies in. -/
def trailingBytes (r : BitReader) : Nat := (r.bitsRemaining - (8 - r.bitOffset) % 8) / 8

end BitReader

end BitLayout
