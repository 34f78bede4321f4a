import BitLayout.Text.Encoding.Unicode

/-!
# Names of encodings

An encoding is asked for by name. Case does not matter, and any run of other than letters, digits
and full stops counts as one separator. Some names stand for conversions that are not between text
and bytes. A name itself has to be encodable, without a null in it.

## Main definitions

* `Encoding`: the supported character encodings
* `NameFault`: why a name cannot even be looked up
* `EncodingName.normalized`: the normal form of a name
* `EncodingName.registrations`, `EncodingName.find`: what a name stands for
-/

namespace BitLayout

/-- The supported character encodings. -/
inductive Encoding where
  | utf8
  /-- UTF-8 with a signature at the start. -/
  | utf8Signed
  | ascii
  | latin1
  | codePage1252
  /-- UTF-16 with a byte order mark at the start. -/
  | utf16Marked
  | utf16Little
  | utf16Big
  /-- UTF-32 with a byte order mark at the start. -/
  | utf32Marked
  | utf32Little
  | utf32Big
deriving DecidableEq

namespace EncodingName

/-- Why a name cannot be looked up. -/
inductive NameFault where
  /-- A null in the name. -/
  | embeddedNull
  /-- A surrogate in the name. -/
  | unencodable (fault : EncodeFault)
deriving DecidableEq

/-- The wording of a reason. -/
def NameFault.message : NameFault → Text
  | .embeddedNull => "embedded null character"
  | .unencodable fault => fault.message

/-- What is wrong with a name, if anything is. Surrogates are looked for first. -/
def nameFault? (name : Text) : Option NameFault :=
  match encodeBy "utf-8" .surrogate .run Utf8.spell? 0 name with
  | .error fault => some (.unencodable fault)
  | .ok bytes => if bytes.contains 0 then some .embeddedNull else none

/-- What a name stands for. -/
inductive Meaning where
  | encoding (encoding : Encoding)
  /-- A conversion that is not between text and bytes. -/
  | otherCodec
  | unknown
  /-- A name that cannot be looked up. -/
  | unusable (fault : NameFault)
deriving DecidableEq

/-- A letter, digit or full stop of ASCII, letters in lower case. -/
def significant? (c : CodePoint) : Option CodePoint :=
  let n := c.toNat
  if 0x41 ≤ n && n ≤ 0x5A then some (.ofChar (Char.ofNat (n + 0x20)))
  else if 0x61 ≤ n && n ≤ 0x7A || c.isDigit || n = 0x2E then some c
  else none

/-- The name from here on; `gap` tells that separators came just before, `begun` that something
else came before those. -/
def normalizedFrom (begun gap : Bool) : Text → Text
  | [] => []
  | c :: rest =>
    match significant? c with
    | none => normalizedFrom begun true rest
    | some d =>
      (if begun && gap then [CodePoint.ofChar '_'] else []) ++ d :: normalizedFrom true false rest

/-- Lower case, with one underscore for each run of separators between other characters. -/
def normalized (name : Text) : Text := normalizedFrom false false name

/-- What is known about one conversion. -/
structure Registration where
  meaning : Meaning
  name : String
  /-- Other names in normal form. -/
  aliases : List String

/-- The known conversions. -/
def registrations : List Registration :=
  [⟨.encoding .utf8, "utf_8", ["cp65001", "u8", "utf", "utf8", "utf8_ucs2", "utf8_ucs4"]⟩,
   ⟨.encoding .utf8Signed, "utf_8_sig", []⟩,
   ⟨.encoding .ascii, "ascii",
    ["646", "ansi_x3.4_1968", "ansi_x3.4_1986", "ansi_x3_4_1968", "cp367", "csascii", "ibm367",
     "iso646_us", "iso_646.irv_1991", "iso_ir_6", "us", "us_ascii"]⟩,
   ⟨.encoding .latin1, "latin_1",
    ["8859", "cp819", "csisolatin1", "ibm819", "iso8859", "iso8859_1", "iso_8859_1",
     "iso_8859_1_1987", "iso_ir_100", "l1", "latin", "latin1"]⟩,
   ⟨.encoding .codePage1252, "cp1252", ["1252", "windows_1252"]⟩,
   ⟨.encoding .utf16Marked, "utf_16", ["u16", "utf16"]⟩,
   ⟨.encoding .utf16Little, "utf_16_le", ["unicodelittleunmarked", "utf_16le"]⟩,
   ⟨.encoding .utf16Big, "utf_16_be", ["unicodebigunmarked", "utf_16be"]⟩,
   ⟨.encoding .utf32Marked, "utf_32", ["u32", "utf32"]⟩,
   ⟨.encoding .utf32Little, "utf_32_le", ["utf_32le"]⟩,
   ⟨.encoding .utf32Big, "utf_32_be", ["utf_32be"]⟩,
   ⟨.otherCodec, "hex_codec", ["hex"]⟩,
   ⟨.otherCodec, "base64_codec", ["base64", "base_64"]⟩,
   ⟨.otherCodec, "rot_13", ["rot13"]⟩,
   ⟨.otherCodec, "bz2_codec", ["bz2"]⟩,
   ⟨.otherCodec, "zlib_codec", ["zip", "zlib"]⟩,
   ⟨.otherCodec, "uu_codec", ["uu"]⟩,
   ⟨.otherCodec, "quopri_codec", ["quopri", "quoted_printable", "quotedprintable"]⟩]

/-- The name with underscores for full stops. -/
def withoutStops (name : Text) : Text :=
  name.map fun c => if c = .ofChar '.' then .ofChar '_' else c

/-- Whether a name in normal form calls a conversion. A full stop may stand for an underscore, but
only in the other names. -/
def Registration.isCalled (registration : Registration) (name : Text) : Bool :=
  Text.ofString registration.name = name ||
    registration.aliases.any fun spelling =>
      Text.ofString spelling = name || Text.ofString spelling = withoutStops name

/-- What a name stands for. -/
def find (name : Text) : Meaning :=
  match nameFault? name with
  | some fault => .unusable fault
  | none =>
    let wanted := normalized name
    match registrations.find? (·.isCalled wanted) with
    | some registration => registration.meaning
    | none => .unknown

end EncodingName

end BitLayout
