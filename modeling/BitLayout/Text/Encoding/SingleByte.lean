import BitLayout.Text.Encoding.Basic

/-!
# Encodings with one byte for each code point

ASCII, Latin-1 and the code page 1252, which differs from Latin-1 in thirty-two places, five of
them without a code point.

## Main definitions

* `SingleByte.step`: reading by a table
* `Ascii.char?`, `Latin1.char?`, `CodePage1252.char?` and the spellings beside them
-/

namespace BitLayout

/-- Reads one byte by a table. -/
def SingleByte.step (char? : UInt8 → Option CodePoint) (reason : DecodeReason) (b : UInt8)
    (_rest : List UInt8) : CodePointStep :=
  match char? b with
  | some c => .char c 0
  | none => .fault 1 reason

namespace Ascii

/-- The code point of a byte below 128. -/
def char? (b : UInt8) : Option CodePoint := if b.toNat < 0x80 then some (.ofByte b) else none

/-- The byte of a code point below 128. -/
def spell? (c : CodePoint) : Option (List UInt8) :=
  if c.toNat < 0x80 then some [UInt8.ofNat c.toNat] else none

end Ascii

namespace Latin1

/-- The code point of a byte. -/
def char? (b : UInt8) : Option CodePoint := some (.ofByte b)

/-- The byte of a code point below 256. -/
def spell? (c : CodePoint) : Option (List UInt8) :=
  if c.toNat < 0x100 then some [UInt8.ofNat c.toNat] else none

end Latin1

namespace CodePage1252

/-- The code points of the bytes from 128 to 159; zero stands where there is none. -/
def upperRows : List Nat :=
  [0x20AC, 0, 0x201A, 0x0192, 0x201E, 0x2026, 0x2020, 0x2021,
   0x02C6, 0x2030, 0x0160, 0x2039, 0x0152, 0, 0x017D, 0,
   0, 0x2018, 0x2019, 0x201C, 0x201D, 0x2022, 0x2013, 0x2014,
   0x02DC, 0x2122, 0x0161, 0x203A, 0x0153, 0, 0x017E, 0x0178]

/-- The code point of a byte. -/
def char? (b : UInt8) : Option CodePoint :=
  let n := b.toNat
  if 0x80 ≤ n && n < 0xA0 then
    match upperRows[n - 0x80]? with
    | none => none
    | some row => if row = 0 then none else some (.ofNat row)
  else some (.ofByte b)

/-- The byte of a code point: its own number outside the upper rows, otherwise its place there. -/
def spell? (c : CodePoint) : Option (List UInt8) :=
  let n := c.toNat
  if n < 0x80 || 0xA0 ≤ n && n < 0x100 then some [UInt8.ofNat n]
  else if n < 0x100 then none
  else (upperRows.idxOf? n).map fun place => [UInt8.ofNat (0x80 + place)]

end CodePage1252

end BitLayout
