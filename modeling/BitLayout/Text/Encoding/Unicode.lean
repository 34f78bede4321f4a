import BitLayout.Text.Encoding.Basic

/-!
# The Unicode encoding forms

UTF-8, UTF-16 and UTF-32, the last two in either byte order. A surrogate without its partner has
no spelling in any of them.

## Main definitions

* `Utf8.step`, `Utf8.spell?`
* `Utf16.step`, `Utf16.spell?`
* `Utf32.step`, `Utf32.spell?`
-/

namespace BitLayout

/-- Which byte of a unit comes first. -/
inductive ByteOrder where
  | little
  | big
deriving DecidableEq

namespace Utf8

/-- Reads `need` more bytes of a code point of which `taken` are read and spell `value`. The next
byte lies between `low` and `high`; those after it are plain continuation bytes. -/
def continuation (need low high value taken : Nat) : List UInt8 → CodePointStep
  | [] => if need = 0 then .char (.ofNat value) (taken - 1) else .fault taken .unexpectedEnd
  | b :: rest =>
    if need = 0 then .char (.ofNat value) (taken - 1)
    else if low ≤ b.toNat && b.toNat ≤ high then
      continuation (need - 1) 0x80 0xBF (64 * value + (b.toNat - 0x80)) (taken + 1) rest
    else .fault taken .invalidContinuation

/-- Reads one code point. The bounds on the second byte shut out overlong spellings, surrogates and
numbers above the last code point. -/
def step (b : UInt8) (rest : List UInt8) : CodePointStep :=
  let n := b.toNat
  if n < 0x80 then .char (.ofByte b) 0
  else if n < 0xC2 then .fault 1 .invalidStart
  else if n < 0xE0 then continuation 1 0x80 0xBF (n - 0xC0) 1 rest
  else if n < 0xF0 then
    continuation 2 (if n = 0xE0 then 0xA0 else 0x80) (if n = 0xED then 0x9F else 0xBF)
      (n - 0xE0) 1 rest
  else if n < 0xF5 then
    continuation 3 (if n = 0xF0 then 0x90 else 0x80) (if n = 0xF4 then 0x8F else 0xBF)
      (n - 0xF0) 1 rest
  else .fault 1 .invalidStart

/-- The bytes of a code point. -/
def spell? (c : CodePoint) : Option (List UInt8) :=
  let n := c.toNat
  let tail (k : Nat) : UInt8 := UInt8.ofNat (0x80 + (n >>> (6 * k)) % 64)
  if c.isSurrogate then none
  else if n < 0x80 then some [UInt8.ofNat n]
  else if n < 0x800 then some [UInt8.ofNat (0xC0 + (n >>> 6)), tail 0]
  else if n < 0x10000 then some [UInt8.ofNat (0xE0 + (n >>> 12)), tail 1, tail 0]
  else some [UInt8.ofNat (0xF0 + (n >>> 18)), tail 2, tail 1, tail 0]

end Utf8

namespace Utf16

/-- The number of a unit. -/
def unit (order : ByteOrder) (a b : UInt8) : Nat :=
  match order with
  | .little => 256 * b.toNat + a.toNat
  | .big => 256 * a.toNat + b.toNat

/-- The two bytes of a unit. -/
def bytesOfUnit (order : ByteOrder) (n : Nat) : List UInt8 :=
  match order with
  | .little => [UInt8.ofNat n, UInt8.ofNat (n / 256)]
  | .big => [UInt8.ofNat (n / 256), UInt8.ofNat n]

/-- Reads one code point, a unit or a pair of surrogates. -/
def step (order : ByteOrder) (a : UInt8) (rest : List UInt8) : CodePointStep :=
  match rest with
  | [] => .fault 1 .truncated
  | b :: rest =>
    let c := CodePoint.ofNat (unit order a b)
    if c.isLowSurrogate then .fault 2 .illegalEncoding
    else if c.isHighSurrogate then
      match rest with
      | a' :: b' :: _ =>
        let d := CodePoint.ofNat (unit order a' b')
        if d.isLowSurrogate then
          .char (.ofNat (0x10000 + 0x400 * (c.toNat - 0xD800) + (d.toNat - 0xDC00))) 3
        else .fault 2 .illegalSurrogate
      | short => .fault (2 + short.length) .unexpectedEnd
    else .char c 1

/-- The bytes of a code point. -/
def spell? (order : ByteOrder) (c : CodePoint) : Option (List UInt8) :=
  let n := c.toNat
  if c.isSurrogate then none
  else if n < 0x10000 then some (bytesOfUnit order n)
  else some (bytesOfUnit order (0xD800 + (n - 0x10000) / 0x400) ++
    bytesOfUnit order (0xDC00 + (n - 0x10000) % 0x400))

end Utf16

namespace Utf32

/-- The number that four bytes spell. -/
def number (order : ByteOrder) (a b c d : UInt8) : Nat :=
  match order with
  | .little => 256 * (256 * (256 * d.toNat + c.toNat) + b.toNat) + a.toNat
  | .big => 256 * (256 * (256 * a.toNat + b.toNat) + c.toNat) + d.toNat

/-- Reads one code point. -/
def step (order : ByteOrder) (a : UInt8) (rest : List UInt8) : CodePointStep :=
  match rest with
  | b :: c :: d :: _ =>
    match CodePoint.ofNat? (number order a b c d) with
    | none => .fault 4 .outOfRange
    | some p => if p.isSurrogate then .fault 4 .surrogateRange else .char p 3
  | short => .fault (1 + short.length) .truncated

/-- The bytes of a code point. -/
def spell? (order : ByteOrder) (c : CodePoint) : Option (List UInt8) :=
  let n := c.toNat
  let big := [UInt8.ofNat 0, UInt8.ofNat (n / 0x10000), UInt8.ofNat (n / 0x100), UInt8.ofNat n]
  if c.isSurrogate then none
  else match order with
    | .little => some big.reverse
    | .big => some big

end Utf32

end BitLayout
