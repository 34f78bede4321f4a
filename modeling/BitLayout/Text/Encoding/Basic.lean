import BitLayout.Text.Basic

/-!
# Reading and writing encoded text

What all character encodings share. A decoder is a step that reads one code point off the front of
a byte string; an encoder gives the bytes of one code point or refuses it. Faults carry the place
and the reason, from which the message follows.

## Main definitions

* `DecodeFault`, `EncodeFault` and their messages
* `CodePointStep`, `decodeBy`: decoding by a step
* `encodeBy`: encoding code point by code point
-/

namespace BitLayout

/-- Why a byte string spells no text. -/
inductive DecodeReason where
  | invalidStart
  | invalidContinuation
  | unexpectedEnd
  | truncated
  | illegalEncoding
  | illegalSurrogate
  | outOfRange
  | surrogateRange
  | ordinal (limit : Nat)
  | undefined
deriving DecidableEq

namespace DecodeReason

/-- The wording of a reason. -/
def message : DecodeReason → Text
  | .invalidStart => "invalid start byte"
  | .invalidContinuation => "invalid continuation byte"
  | .unexpectedEnd => "unexpected end of data"
  | .truncated => "truncated data"
  | .illegalEncoding => "illegal encoding"
  | .illegalSurrogate => "illegal UTF-16 surrogate"
  | .outOfRange => "code point not in range(0x110000)"
  | .surrogateRange => "code point in surrogate code point range(0xd800, 0xe000)"
  | .ordinal limit => "ordinal not in range(" ++ Text.ofNat limit ++ ")"
  | .undefined => "character maps to <undefined>"

end DecodeReason

/-- A run of bytes that an encoding does not read. -/
structure DecodeFault where
  /-- The encoding at work. -/
  codec : Text
  /-- The first byte of the run. -/
  first : UInt8
  /-- Where the run starts. -/
  position : Nat
  /-- How many bytes it has. -/
  length : Nat
  reason : DecodeReason
deriving DecidableEq

/-- The wording of a fault: one byte is shown, of several only the positions. -/
def DecodeFault.message (fault : DecodeFault) : Text :=
  "'" ++ fault.codec ++ "' codec can't decode " ++
    (if fault.length = 1 then
      "byte 0x" ++ Text.hex 2 fault.first.toNat ++ " in position " ++ Text.ofNat fault.position
    else
      "bytes in position " ++ Text.ofNat fault.position ++ "-" ++
        Text.ofNat (fault.position + fault.length - 1)) ++
    ": " ++ fault.reason.message

/-- Why an encoding has no bytes for a code point. -/
inductive EncodeReason where
  | surrogate
  | ordinal (limit : Nat)
  | undefined
deriving DecidableEq

/-- The wording of a reason. -/
def EncodeReason.message : EncodeReason → Text
  | .surrogate => "surrogates not allowed"
  | .ordinal limit => "ordinal not in range(" ++ Text.ofNat limit ++ ")"
  | .undefined => "character maps to <undefined>"

/-- A run of code points that an encoding cannot write. -/
structure EncodeFault where
  /-- The encoding at work. -/
  codec : Text
  /-- The first code point of the run. -/
  first : CodePoint
  /-- Where the run starts. -/
  position : Nat
  /-- How many code points it has. -/
  length : Nat
  reason : EncodeReason
deriving DecidableEq

/-- The wording of a fault: one code point is shown, of several only the positions. -/
def EncodeFault.message (fault : EncodeFault) : Text :=
  "'" ++ fault.codec ++ "' codec can't encode " ++
    (if fault.length = 1 then
      "character '" ++ fault.first.escaped ++ "' in position " ++ Text.ofNat fault.position
    else
      "characters in position " ++ Text.ofNat fault.position ++ "-" ++
        Text.ofNat (fault.position + fault.length - 1)) ++
    ": " ++ fault.reason.message

/-- What the front of a byte string comes to. -/
inductive CodePointStep where
  /-- A code point spelled by the first byte and `extra` more. -/
  | char (c : CodePoint) (extra : Nat)
  /-- A run of `length` bytes that spells nothing. -/
  | fault (length : Nat) (reason : DecodeReason)

/-- Reads a byte string step by step. The first `skip` bytes belong to the code point before, and
`position` counts from the start of the input. -/
def decodeBy (codec : Text) (step : UInt8 → List UInt8 → CodePointStep) :
    (skip position : Nat) → List UInt8 → Except DecodeFault Text
  | _, _, [] => .ok []
  | skip + 1, position, _ :: rest => decodeBy codec step skip (position + 1) rest
  | 0, position, b :: rest =>
    match step b rest with
    | .char c extra => (c :: ·) <$> decodeBy codec step extra (position + 1) rest
    | .fault length reason => .error ⟨codec, b, position, length, reason⟩

/-- How far a fault reaches: over all neighbours that cannot be written either, or not beyond the
first one. -/
inductive FaultReach where
  | run
  | single
deriving DecidableEq

/-- Writes a text code point by code point. -/
def encodeBy (codec : Text) (reason : EncodeReason) (reach : FaultReach)
    (spell? : CodePoint → Option (List UInt8)) (position : Nat) :
    Text → Except EncodeFault (List UInt8)
  | [] => .ok []
  | c :: rest =>
    match spell? c with
    | some bytes => (bytes ++ ·) <$> encodeBy codec reason reach spell? (position + 1) rest
    | none =>
      let others :=
        match reach with
        | .run => (rest.takeWhile fun c => (spell? c).isNone).length
        | .single => 0
      .error ⟨codec, c, position, others + 1, reason⟩

end BitLayout
