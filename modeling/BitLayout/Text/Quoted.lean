import BitLayout.Text.Printable

/-!
# Quoted literals

How a message shows a text or a byte string. The literal stands in single quotes, or in double
quotes when the content holds a single quote and no double quote. A backslash, the three common
line controls and everything that is not printable are escaped.

## Main definitions

* `Text.quoted`: a text as a literal
* `quotedBytes`: a byte string as a literal with the letter `b` in front
* `quotedByteArray`: the literal of a growable byte string, which escapes every single quote
-/

namespace BitLayout

/-- The quote that encloses a literal with this content. -/
def enclosingQuote (content : Text) : CodePoint :=
  let single := CodePoint.ofChar '\''
  let double := CodePoint.ofChar '"'
  if content.contains single && !content.contains double then double else single

/-- One code point inside a literal enclosed in `quote`, escaped unless `shown` says it stands for
itself. -/
def CodePoint.inLiteral (shown : CodePoint → Bool) (quote c : CodePoint) : Text :=
  if c = quote || c = CodePoint.ofChar '\\' then [CodePoint.ofChar '\\', c]
  else if c = CodePoint.ofChar '\t' then "\\t"
  else if c = CodePoint.ofChar '\n' then "\\n"
  else if c = CodePoint.ofChar '\r' then "\\r"
  else if shown c then [c]
  else c.escaped

/-- A text as a literal. -/
def Text.quoted (t : Text) : Text :=
  let quote := enclosingQuote t
  quote :: t.flatMap (CodePoint.inLiteral CodePoint.isPrintable quote) ++ [quote]

/-- Whether a byte stands for itself in a literal: printable ASCII. -/
def isShownByte (c : CodePoint) : Bool := 0x20 ≤ c.toNat && c.toNat < 0x7F

/-- A byte string as a literal. -/
def quotedBytes (bytes : List UInt8) : Text :=
  let content := bytes.map CodePoint.ofByte
  let quote := enclosingQuote content
  "b" ++ quote :: content.flatMap (CodePoint.inLiteral isShownByte quote) ++ [quote]

/-- A growable byte string as a literal. A single quote is escaped inside either kind of quotes,
a double quote inside neither. -/
def quotedByteArray (bytes : List UInt8) : Text :=
  let content := bytes.map CodePoint.ofByte
  let quote := enclosingQuote content
  "bytearray(b" ++ quote ::
    content.flatMap (CodePoint.inLiteral isShownByte (CodePoint.ofChar '\'')) ++ [quote] ++ ")"

end BitLayout
