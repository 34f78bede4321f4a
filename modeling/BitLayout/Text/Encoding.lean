import BitLayout.Text.Encoding.Name
import BitLayout.Text.Encoding.SingleByte
import BitLayout.Text.Encoding.Unicode

/-!
# Character encodings

Decoding and encoding by one of the supported encodings, or by a name.

## Main definitions

* `Encoding.decode`, `Encoding.encode`
* `EncodingName.decode`, `EncodingName.encode`: by name, which may stand for no encoding
-/

namespace BitLayout

namespace Encoding

/-- Two bytes that announce UTF-16 in the given order. -/
def mark16 (order : ByteOrder) : List UInt8 := Utf16.bytesOfUnit order 0xFEFF

/-- Four bytes that announce UTF-32 in the given order. -/
def mark32 : ByteOrder → List UInt8
  | .little => [0xFF, 0xFE, 0, 0]
  | .big => [0, 0, 0xFE, 0xFF]

/-- The signature of UTF-8. -/
def signature8 : List UInt8 := [0xEF, 0xBB, 0xBF]

/-- The part of the codec's name that tells the byte order. -/
def orderName : ByteOrder → Text
  | .little => "-le"
  | .big => "-be"

/-- UTF-16 in one byte order; `position` bytes came before. -/
def decode16 (order : ByteOrder) (position : Nat) (bytes : List UInt8) : Except DecodeFault Text :=
  decodeBy ("utf-16" ++ orderName order) (Utf16.step order) 0 position bytes

/-- UTF-32 in one byte order; `position` bytes came before. -/
def decode32 (order : ByteOrder) (position : Nat) (bytes : List UInt8) : Except DecodeFault Text :=
  decodeBy ("utf-32" ++ orderName order) (Utf32.step order) 0 position bytes

/-- UTF-8 without a signature. -/
def decode8 (bytes : List UInt8) : Except DecodeFault Text :=
  decodeBy "utf-8" Utf8.step 0 0 bytes

/-- The text that a byte string spells. A mark or signature at the start belongs to no text; without
a mark the low byte comes first. Positions count the mark of UTF-16 and UTF-32 but not the
signature of UTF-8. -/
def decode (encoding : Encoding) (bytes : List UInt8) : Except DecodeFault Text :=
  match encoding with
  | .utf8 => decode8 bytes
  | .utf8Signed =>
    if signature8.isPrefixOf bytes then decode8 (bytes.drop 3) else decode8 bytes
  | .ascii => decodeBy "ascii" (SingleByte.step Ascii.char? (.ordinal 128)) 0 0 bytes
  | .latin1 => decodeBy "latin-1" (SingleByte.step Latin1.char? (.ordinal 256)) 0 0 bytes
  | .codePage1252 => decodeBy "charmap" (SingleByte.step CodePage1252.char? .undefined) 0 0 bytes
  | .utf16Marked =>
    if (mark16 .little).isPrefixOf bytes then decode16 .little 2 (bytes.drop 2)
    else if (mark16 .big).isPrefixOf bytes then decode16 .big 2 (bytes.drop 2)
    else decode16 .little 0 bytes
  | .utf16Little => decode16 .little 0 bytes
  | .utf16Big => decode16 .big 0 bytes
  | .utf32Marked =>
    if (mark32 .little).isPrefixOf bytes then decode32 .little 4 (bytes.drop 4)
    else if (mark32 .big).isPrefixOf bytes then decode32 .big 4 (bytes.drop 4)
    else decode32 .little 0 bytes
  | .utf32Little => decode32 .little 0 bytes
  | .utf32Big => decode32 .big 0 bytes

/-- The bytes that spell a text. A marked form starts with the mark, low byte first. -/
def encode (encoding : Encoding) (t : Text) : Except EncodeFault (List UInt8) :=
  match encoding with
  | .utf8 => encodeBy "utf-8" .surrogate .run Utf8.spell? 0 t
  | .utf8Signed => (signature8 ++ ·) <$> encodeBy "utf-8" .surrogate .run Utf8.spell? 0 t
  | .ascii => encodeBy "ascii" (.ordinal 128) .run Ascii.spell? 0 t
  | .latin1 => encodeBy "latin-1" (.ordinal 256) .run Latin1.spell? 0 t
  | .codePage1252 => encodeBy "charmap" .undefined .run CodePage1252.spell? 0 t
  | .utf16Marked =>
    (mark16 .little ++ ·) <$> encodeBy "utf-16" .surrogate .single (Utf16.spell? .little) 0 t
  | .utf16Little => encodeBy "utf-16-le" .surrogate .single (Utf16.spell? .little) 0 t
  | .utf16Big => encodeBy "utf-16-be" .surrogate .single (Utf16.spell? .big) 0 t
  | .utf32Marked =>
    (mark32 .little ++ ·) <$> encodeBy "utf-32" .surrogate .single (Utf32.spell? .little) 0 t
  | .utf32Little => encodeBy "utf-32-le" .surrogate .single (Utf32.spell? .little) 0 t
  | .utf32Big => encodeBy "utf-32-be" .surrogate .single (Utf32.spell? .big) 0 t

end Encoding

namespace EncodingName

/-- Why a name cannot be used for a conversion. -/
inductive Fault (ε : Type) where
  /-- The name stands for nothing. -/
  | unknown (name : Text)
  /-- The name stands for a conversion that is not between text and bytes. -/
  | otherCodec (name : Text)
  /-- The name cannot be looked up. -/
  | unusable (fault : NameFault)
  /-- The encoding refuses the content. -/
  | content (fault : ε)

/-- Decodes by name. No bytes are no text whatever a usable name stands for. -/
def decode (name : Text) (bytes : List UInt8) : Except (Fault DecodeFault) Text :=
  match find name with
  | .unusable fault => .error (.unusable fault)
  | .encoding encoding => (encoding.decode bytes).mapError .content
  | .otherCodec => if bytes.isEmpty then .ok [] else .error (.otherCodec name)
  | .unknown => if bytes.isEmpty then .ok [] else .error (.unknown name)

/-- Encodes by name. -/
def encode (name : Text) (t : Text) : Except (Fault EncodeFault) (List UInt8) :=
  match find name with
  | .unusable fault => .error (.unusable fault)
  | .encoding encoding => (encoding.encode t).mapError .content
  | .otherCodec => .error (.otherCodec name)
  | .unknown => .error (.unknown name)

end EncodingName

end BitLayout
