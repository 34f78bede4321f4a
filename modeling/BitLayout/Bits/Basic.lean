import BitLayout.Number.Integer

/-!
# Bit strings

Bit strings are lists of truth values with the most significant bit first. This module fixes how
natural numbers and byte strings are read as bit strings, and the big-endian conversions between
byte strings and numbers.

## Main definitions

* `bitsOfNat`, `natOfBits`: a number as a bit string of given width, and back
* `bitsOfByte`, `bitsOfBytes`: the bits of bytes
* `natOfBytes`, `bytesOfNat`: big-endian numbers
* `lowBits`: an integer modulo a power of two
* `CursorError`, `CursorError.message`: why a read or a write is refused
-/

namespace BitLayout

/-- The low `width` bits of `n`, most significant first. -/
def bitsOfNat : Nat → Nat → List Bool
  | 0, _ => []
  | width + 1, n => n.testBit width :: bitsOfNat width n

/-- The number that a bit string spells. -/
def natOfBits (bits : List Bool) : Nat := bits.foldl (fun n b => 2 * n + b.toNat) 0

/-- The eight bits of a byte. -/
def bitsOfByte (b : UInt8) : List Bool := bitsOfNat 8 b.toNat

/-- The bits of a byte string, byte after byte. -/
def bitsOfBytes (bytes : List UInt8) : List Bool := bytes.flatMap bitsOfByte

/-- The number that a byte string spells, most significant byte first. -/
def natOfBytes (bytes : List UInt8) : Nat := bytes.foldl (fun n b => 256 * n + b.toNat) 0

/-- The low `count` bytes of `n`, most significant first. -/
def bytesOfNat : Nat → Nat → List UInt8
  | 0, _ => []
  | count + 1, n => UInt8.ofNat (n >>> (8 * count)) :: bytesOfNat count n

/-- The integer reduced to its low `width` bits. -/
def lowBits (width : Nat) (value : Int) : Nat := (value % (1 <<< width : Nat)).toNat

/-- Why a cursor refuses to read or write; a refused request leaves the cursor where it was. -/
inductive CursorError where
  /-- A field narrower than one bit. -/
  | widthNotPositive (width : Integer)
  /-- A request for a negative number of bits. -/
  | countNegative (count : Integer)
  /-- Bytes written while the last byte is incomplete. -/
  | unalignedWrite (bitOffset : Nat)
  /-- Bytes read from the middle of a byte. -/
  | unalignedRead (bitOffset : Nat)
  /-- More bits requested than are left. -/
  | outOfBits (need : Integer) (available : Nat)
  /-- A field wider than any number can be. -/
  | numberTooWide
  /-- A field for which there is no room. -/
  | outOfMemory
deriving DecidableEq

/-- The wording of a refused request to a cursor. -/
def CursorError.message : CursorError → Wording
  | .widthNotPositive width => "num_bits must be positive, got " ++ width.written
  | .countNegative count => "num_bits must not be negative, got " ++ count.written
  | .unalignedWrite bitOffset =>
    "write_bytes requires byte alignment, bit offset is " ++ Wording.ofNat bitOffset
  | .unalignedRead bitOffset =>
    "read_bytes requires byte alignment, bit offset is " ++ Wording.ofNat bitOffset
  | .outOfBits need available =>
    "Not enough bits: need " ++ need.written ++ ", have " ++ Wording.ofNat available
  | .numberTooWide => "too many digits in integer"
  | .outOfMemory => ""

end BitLayout
