import BitLayout.Json.Error
import BitLayout.Number.Decimal
import BitLayout.Value.Basic

/-!
# Reading JSON

A JSON document as a value: objects become records in which the last of several equal names wins,
arrays become lists, and numbers become integers unless they have a fraction or an exponent. The
words `NaN`, `Infinity` and `-Infinity` are numbers too, and a surrogate may be escaped alone.

## Main definitions

* `Json.read`: a whole document
* `Json.readValue`: one value at the front of a text
-/

namespace BitLayout.Json

/-- A code point that may stand between tokens. -/
def isBlank (c : CodePoint) : Bool :=
  c.toNat = 0x20 || c.toNat = 0x09 || c.toNat = 0x0A || c.toNat = 0x0D

/-- The text from its first token on. -/
def skipBlanks (t : Text) : Text := t.dropWhile isBlank

/-- The number that four hexadecimal digits spell. -/
def hexNumber? (a b c d : CodePoint) : Option Nat := do
  let a ← a.hexValue?
  let b ← b.hexValue?
  let c ← c.hexValue?
  let d ← d.hexValue?
  some (16 * (16 * (16 * a + b) + c) + d)

/-- The code point that a one-letter escape stands for. -/
def escaped? (c : CodePoint) : Option CodePoint :=
  let n := c.toNat
  if n = 0x22 || n = 0x5C || n = 0x2F then some c
  else if n = 0x62 then some (.ofNat 0x08)
  else if n = 0x66 then some (.ofNat 0x0C)
  else if n = 0x6E then some (.ofNat 0x0A)
  else if n = 0x72 then some (.ofNat 0x0D)
  else if n = 0x74 then some (.ofNat 0x09)
  else none

/-- The code point of a surrogate pair. -/
def joinSurrogates (high low : CodePoint) : CodePoint :=
  .ofNat (0x10000 + 0x400 * (high.toNat - 0xD800) + (low.toNat - 0xDC00))

/-- The number of four hexadecimal digits at the front of a text, and what follows them. One more
code point has to follow. -/
def splitHexNumber? : Text → Option (Nat × Text)
  | a :: b :: c :: d :: next :: rest => (hexNumber? a b c d).map fun n => (n, next :: rest)
  | _ => none

/-- Whether a text has five code points or more. -/
def hasFive : Text → Bool
  | _ :: _ :: _ :: _ :: _ :: _ => true
  | _ => false

/-- What the front of a string comes to. -/
inductive StringStep where
  /-- The closing quote. -/
  | close
  /-- A code point spelled by the first code point and `extra` more. -/
  | char (c : CodePoint) (extra : Nat)
  | fault (fault : JsonFault)

/-- The escape with the digits at the front of the given text. A high surrogate joins with a low one
that is escaped right after it. -/
def unicodeStep (digits : Text) : StringStep :=
  match splitHexNumber? digits with
  | none => .fault ⟨.unicodeEscape, digits.length + 1⟩
  | some (n, after) =>
    let c := CodePoint.ofNat n
    match after with
    | backslash :: letter :: more =>
      if c.isHighSurrogate && backslash.toNat = 0x5C && letter.toNat = 0x75 && hasFive more then
        match splitHexNumber? more with
        | none => .fault ⟨.unicodeEscape, more.length + 1⟩
        | some (m, _) =>
          let d := CodePoint.ofNat m
          if d.isLowSurrogate then .char (joinSurrogates c d) 11 else .char c 5
      else .char c 5
    | _ => .char c 5

/-- The front of a string that started at `opening`. -/
def stringStep (opening : Text) (c : CodePoint) (rest : Text) : StringStep :=
  if c.toNat = 0x22 then .close
  else if c.toNat = 0x5C then
    match rest with
    | [] => .fault ⟨.unterminatedString, opening.length⟩
    | letter :: digits =>
      if letter.toNat = 0x75 then unicodeStep digits
      else match escaped? letter with
        | some d => .char d 1
        | none => .fault ⟨.escape, rest.length + 1⟩
  else if c.toNat < 0x20 then .fault ⟨.controlCharacter, rest.length + 1⟩
  else .char c 0

/-- The rest of a string and what follows its closing quote. The first `skip` code points belong to
the escape before. -/
def readString (opening : Text) (skip : Nat) : Text → Except JsonFault (Text × Text)
  | [] => .error ⟨.unterminatedString, opening.length⟩
  | c :: rest =>
    match skip with
    | skip + 1 => readString opening skip rest
    | 0 =>
      match stringStep opening c rest with
      | .close => .ok ([], rest)
      | .char d extra => do
        let (t, rest) ← readString opening extra rest
        .ok (d :: t, rest)
      | .fault fault => .error fault

/-- The digits of a fraction after its point, and the rest; nothing if no digit follows. -/
def splitFraction (t : Text) : Text × Text :=
  match t with
  | point :: digit :: rest =>
    if point.toNat = 0x2E && digit.isDigit then Decimal.splitDigits (digit :: rest) else ([], t)
  | _ => ([], t)

/-- The exponent of a number and the rest; nothing if no digit follows the letter and sign. -/
def splitExponent (t : Text) : Option Int × Text :=
  match t with
  | letter :: rest =>
    if letter.toNat = 0x65 || letter.toNat = 0x45 then
      let (negative, unsigned) := Decimal.splitSign rest
      let (digits, after) := Decimal.splitDigits unsigned
      if digits.isEmpty then (none, t)
      else
        let n : Int := Decimal.valueOfDigits digits
        (some (if negative then -n else n), after)
    else (none, t)
  | [] => (none, t)

/-- The whole part of a number: a zero by itself or digits that start with another one. -/
def splitWhole (t : Text) : Text × Text :=
  match t with
  | c :: rest => if c.toNat = 0x30 then ([c], rest) else Decimal.splitDigits t
  | [] => ([], [])

/-- A number without its sign; `start` is the number with everything after it. -/
def readUnsigned (negative : Bool) (start t : Text) :
    Except JsonFault (Value × Text) :=
  let (whole, afterWhole) := splitWhole t
  if whole.isEmpty then .error ⟨.value, start.length⟩
  else
    let (fraction, afterFraction) := splitFraction afterWhole
    let (exponent?, rest) := splitExponent afterFraction
    if fraction.isEmpty && exponent?.isNone then
      if maxDigits < whole.length then .error ⟨.tooManyDigits whole.length, start.length⟩
      else
        let n : Int := Decimal.valueOfDigits whole
        .ok (.int (if negative then -n else n), rest)
    else
      let d : Decimal :=
        ⟨Decimal.valueOfDigits (whole ++ fraction), exponent?.getD 0 - fraction.length⟩
      .ok (.float (Binary64.ofDecimal negative d), rest)

/-- A number at the front of a text. -/
def readNumber (t : Text) : Except JsonFault (Value × Text) :=
  match t with
  | c :: rest =>
    if c.toNat = 0x2D then readUnsigned true t rest else readUnsigned false t t
  | [] => .error ⟨.value, 0⟩

/-- The words that stand for values. -/
def words : List (String × Value) :=
  [("null", .null), ("true", .bool true), ("false", .bool false), ("NaN", .float Binary64.nan),
   ("Infinity", .float (Binary64.infinity false)),
   ("-Infinity", .float (Binary64.infinity true))]

/-- A word or a number at the front of a text. -/
def readScalar (t : Text) : Except JsonFault (Value × Text) :=
  match words.findSome? fun (word, value) =>
      (Text.dropLead? word t).map fun rest => (value, rest) with
  | some result => .ok result
  | none => readNumber t

mutual

/-- One value at the front of a text and the rest. `fuel` bounds the nesting of calls; twice the
length of the text is enough. -/
def readValue (fuel : Nat) (t : Text) : Except JsonFault (Value × Text) :=
  match fuel with
  | 0 => .error ⟨.value, t.length⟩
  | fuel + 1 =>
    match t with
    | [] => .error ⟨.value, 0⟩
    | c :: rest =>
      if c.toNat = 0x22 then do
        let (content, rest) ← readString t 0 rest
        .ok (.text content, rest)
      else if c.toNat = 0x5B then
        match skipBlanks rest with
        | d :: after =>
          if d.toNat = 0x5D then .ok (.list [], after)
          else do
            let (items, rest) ← readItems fuel (d :: after)
            .ok (.list items, rest)
        | [] => .error ⟨.value, 0⟩
      else if c.toNat = 0x7B then
        match skipBlanks rest with
        | d :: after =>
          if d.toNat = 0x7D then .ok (.dict [], after)
          else do
            let (entries, rest) ← readEntries fuel (d :: after)
            .ok (.dict (Entries.ofList entries), rest)
        | [] => .error ⟨.propertyName, 0⟩
      else readScalar t

/-- The items of an array from its first one to its closing bracket. -/
def readItems (fuel : Nat) (t : Text) : Except JsonFault (List Value × Text) :=
  match fuel with
  | 0 => .error ⟨.value, t.length⟩
  | fuel + 1 => do
    let (item, rest) ← readValue fuel t
    match skipBlanks rest with
    | d :: after =>
      if d.toNat = 0x5D then .ok ([item], after)
      else if d.toNat = 0x2C then do
        let (items, rest) ← readItems fuel (skipBlanks after)
        .ok (item :: items, rest)
      else .error ⟨.comma, after.length + 1⟩
    | [] => .error ⟨.comma, 0⟩

/-- The entries of an object from its first name to its closing brace. -/
def readEntries (fuel : Nat) (t : Text) : Except JsonFault (List (Value × Value) × Text) :=
  match fuel with
  | 0 => .error ⟨.propertyName, t.length⟩
  | fuel + 1 =>
    match t with
    | quote :: afterQuote =>
      if quote.toNat ≠ 0x22 then .error ⟨.propertyName, t.length⟩
      else do
        let (name, rest) ← readString t 0 afterQuote
        match skipBlanks rest with
        | colon :: afterColon =>
          if colon.toNat ≠ 0x3A then .error ⟨.colon, afterColon.length + 1⟩
          else do
            let (value, rest) ← readValue fuel (skipBlanks afterColon)
            match skipBlanks rest with
            | d :: after =>
              if d.toNat = 0x7D then .ok ([(.text name, value)], after)
              else if d.toNat = 0x2C then do
                let (entries, rest) ← readEntries fuel (skipBlanks after)
                .ok ((.text name, value) :: entries, rest)
              else .error ⟨.comma, after.length + 1⟩
            | [] => .error ⟨.comma, 0⟩
        | [] => .error ⟨.colon, 0⟩
    | [] => .error ⟨.propertyName, 0⟩

end

/-- A whole document: one value with blanks around it. -/
def read (document : Text) : Except JsonFault Value :=
  if document.head?.any (·.toNat = 0xFEFF) then .error ⟨.mark, document.length⟩
  else do
    let t := skipBlanks document
    let (value, rest) ← readValue (2 * t.length + 2) t
    let rest := skipBlanks rest
    if rest.isEmpty then .ok value else .error ⟨.extraData, rest.length⟩

end BitLayout.Json
