import BitLayout.Bits.Memory

/-!
# Writing bits

A writer owns a growing byte string. While its bit offset is not zero the last byte is incomplete:
its high bits are taken, its low bits are zero, and the next write fills them first.

## Main definitions

* `BitWriter`, with the view `BitWriter.bits`: everything written so far
* `BitWriter.window`: the number that holds an incomplete last byte and the bits to come
* `BitWriter.writeInt`: an integer reduced to a width
* `BitWriter.writeIntWithin`: the same as far as there is room
* `BitWriter.writeZeros`, `BitWriter.writeBytes`
-/

namespace BitLayout

/-- A byte string under construction and the number of bits taken in its last byte, zero when that
byte is complete. -/
structure BitWriter where
  bytes : Array UInt8
  bitOffset : Nat

namespace BitWriter

/-- Nothing written. -/
def empty : BitWriter := ⟨#[], 0⟩

/-- The number of bits written. -/
def bitLength (w : BitWriter) : Nat :=
  if w.bitOffset = 0 then 8 * w.bytes.size else 8 * (w.bytes.size - 1) + w.bitOffset

/-- The bytes written, an incomplete last byte filled up with zeros. -/
def toBytes (w : BitWriter) : List UInt8 := w.bytes.toList

/-- The bits written, without the filling of the last byte. -/
def bits (w : BitWriter) : List Bool := (bitsOfBytes w.toBytes).take w.bitLength

/-- The complete bytes. -/
def closed (w : BitWriter) : Array UInt8 := if w.bitOffset = 0 then w.bytes else w.bytes.pop

/-- The number in an incomplete last byte, zero if there is none. -/
def opened (w : BitWriter) : Nat :=
  if w.bitOffset = 0 then 0 else (w.bytes.back?.getD 0).toNat

/-- How many bytes an incomplete last byte and `width` more bits take up. -/
def windowBytes (w : BitWriter) (width : Nat) : Nat := (w.bitOffset + width + 7) / 8

/-- The taken bits of an incomplete last byte, the low `width` bits of an integer and the filling of
the new last byte, as one number. -/
def window (w : BitWriter) (value : Int) (width : Nat) : Nat :=
  (w.opened <<< (8 * w.windowBytes width - 8)) +
    (lowBits width value <<< (8 * w.windowBytes width - (w.bitOffset + width)))

/-- Writes the low `width` bits of an integer of any sign and size. The window replaces an
incomplete last byte. -/
def writeInt (w : BitWriter) (value : Int) (width : Integer) : Except CursorError BitWriter :=
  if width.toInt < 1 then .error (.widthNotPositive width)
  else
    let width := width.toNat
    .ok ⟨w.closed ++ bytesOfNat (w.windowBytes width) (w.window value width),
      (w.bitOffset + width) % 8⟩

/-- Writes the low `width` bits of an integer if there is room for a number of that width. -/
def writeIntWithin (memory : Memory) (w : BitWriter) (value : Int) (width : Integer) :
    Except CursorError BitWriter := do
  memory.reserve width.toNat
  w.writeInt value width

/-- Writes zero bits, as many as there is room for in a number. -/
def writeZeros (memory : Memory) (w : BitWriter) (width : Integer) :
    Except CursorError BitWriter :=
  w.writeIntWithin memory 0 width

/-- Writes whole bytes, which must start on a byte boundary. -/
def writeBytes (w : BitWriter) (data : List UInt8) : Except CursorError BitWriter :=
  if w.bitOffset = 0 then .ok { w with bytes := w.bytes ++ data }
  else .error (.unalignedWrite w.bitOffset)

end BitWriter

end BitLayout
