import BitLayout.Text.Encoding.Name
import BitLayout.Value.Printer

/-!
# Malformed layouts

Why a layout cannot be built, or why an operation has no answer for a layout, and the wording of
each reason.

## Main definitions

* `LayoutError`, `LayoutError.message`
-/

namespace BitLayout

/-- What a width or a length belongs to. -/
inductive Subject where
  | bitField
  | wideField
  | padding
  | array
  | byteSlice
  | text
deriving DecidableEq

/-- The subject of a sentence about a width or a length. -/
def Subject.name : Subject → Text
  | .bitField => "Bit field"
  | .wideField => "Wide field"
  | .padding => "Padding"
  | .array => "Array"
  | .byteSlice => "Byte slice"
  | .text => "Text"

/-- A place where a layout is expected. -/
inductive LayoutPlace where
  | slot (index : Nat)
  | element
  | case (key : Int)
  | otherwise
deriving DecidableEq

/-- The subject of a sentence about a part of a layout. -/
def LayoutPlace.name : LayoutPlace → Wording
  | .slot index => "Sequence slot " ++ Wording.ofNat index ++ " child"
  | .element => "Array element"
  | .case key => "Branch case " ++ Wording.ofInt key
  | .otherwise => "Branch else case"

/-- Why a layout cannot be built or used. -/
inductive LayoutError where
  | widthNotInteger (subject : Subject) (width : Value)
  | widthTooSmall (subject : Subject) (width : Int)
  /-- A bit field of more than 31 bits. -/
  | widthTooLarge (width : Int)
  | lengthNotCount (subject : Subject) (length : Value)
  | lengthNegative (subject : Subject) (length : Int)
  /-- The empty text as the name of the field that holds a length. -/
  | lengthUnnamed (subject : Subject)
  | partNotLayout (place : LayoutPlace) (typeName : Text)
  /-- A layout other than padding that stands in a sequence without a name. -/
  | slotWithoutName (index : Nat) (kind : Layout.Kind)
  | slotNotPair (index : Nat) (typeName : Text)
  | slotWrongCount (index count : Nat)
  | slotBadName (index : Nat) (name : Value)
  | discriminantNotName (discriminant : Value)
  | casesNotMapping (typeName : Text)
  | caseKeyNotInteger (key : Value)
  /-- A case key with too many digits for any message. -/
  | caseKeyTooLong (key : Int)
  | unknownEncoding (name : Value)
  /-- The name of an encoding that cannot be looked up. -/
  | unusableEncodingName (fault : EncodingName.NameFault)
  /-- A conversion that is not between text and bytes. -/
  | notTextEncoding (name : Text)
  | notLayout (typeName : Text)
  | unsupportedLayout (typeName : Text)
  | unsupportedSlot (typeName : Text)
  /-- Something in a sequence that is no slot and so has no layout. -/
  | slotWithoutLayout (typeName : Text)
  /-- A layout in a padding slot that has no width. -/
  | layoutWithoutWidth (typeName : Text)
  /-- A size that depends on the value of a field. -/
  | lengthInField (kind : Layout.Kind) (name : Text)
  | casesDifferInSize (discriminant : Text)
  | fieldsOfNonSequence (typeName : Text)
  | recordLayoutNotSequence (record typeName : Text)
  | recordWithoutLayout (record : Text)

namespace LayoutError

/-- The wording of a reason. -/
def message : LayoutError → Wording
  | .widthNotInteger subject width =>
    subject.name ++ " width must be an integer, got " ++ width.written
  | .widthTooSmall subject width =>
    subject.name ++ " width must be at least 1 bit, got " ++ Wording.ofInt width
  | .widthTooLarge width =>
    "Bit field width must be at most 31 bits, got " ++ Wording.ofInt width ++
      ". Use widefield() for wider values."
  | .lengthNotCount subject length =>
    subject.name ++ " length must be an integer or a sibling field name, got " ++ length.written
  | .lengthNegative subject length =>
    subject.name ++ " length must not be negative, got " ++ Wording.ofInt length
  | .lengthUnnamed subject => subject.name ++ " length reference must be a non-empty field name"
  | .partNotLayout place typeName => place.name ++ " must be a schema node, got " ++ typeName
  | .slotWithoutName index kind =>
    "Sequence slot " ++ Wording.ofNat index ++ ": " ++ kind.name ++
      " node has no name; only padding may be used without a name"
  | .slotNotPair index typeName =>
    "Sequence slot " ++ Wording.ofNat index ++ ": expected a (name, node) pair or padding, got " ++
      typeName
  | .slotWrongCount index count =>
    "Sequence slot " ++ Wording.ofNat index ++ ": expected a (name, node) pair, got " ++
      Wording.ofNat count ++ " items"
  | .slotBadName index name =>
    "Sequence slot " ++ Wording.ofNat index ++ ": name must be a non-empty string or EMBED, got " ++
      name.written
  | .discriminantNotName discriminant =>
    "Branch discriminant must be a field name, got " ++ discriminant.written
  | .casesNotMapping typeName => "Branch cases must be a mapping, got " ++ typeName
  | .caseKeyNotInteger key => "Branch case key must be an integer, got " ++ key.written
  | .caseKeyTooLong key => (LayoutPlace.case key).name
  | .unusableEncodingName fault => fault.message
  | .unknownEncoding name => "Unknown text encoding " ++ name.written
  | .notTextEncoding name => name.quoted ++ " is not a text encoding"
  | .notLayout typeName => "Expected a schema node, got " ++ typeName
  | .unsupportedLayout typeName => "Unsupported schema node " ++ typeName
  | .unsupportedSlot typeName => "Unsupported sequence slot " ++ typeName
  | .slotWithoutLayout typeName => "'" ++ typeName ++ "' object has no attribute 'node'"
  | .layoutWithoutWidth typeName => "'" ++ typeName ++ "' object has no attribute 'width'"
  | .lengthInField kind name =>
    (if kind = .array then ("Array" : Text) else kind.name) ++ " length depends on field " ++
      name.quoted
  | .casesDifferInSize discriminant =>
    "Branch on " ++ discriminant.quoted ++ " has cases of different sizes"
  | .fieldsOfNonSequence typeName => "field_sizes() needs a sequence, got " ++ typeName
  | .recordLayoutNotSequence record typeName =>
    record ++ ".bitschema_layout must be a sequence, got " ++ typeName
  | .recordWithoutLayout record => record ++ " has no bitschema_layout"

end LayoutError

/-- The layout that a value is. -/
def Value.expectLayout : Value → Except LayoutError Layout
  | .ofLayout layout => .ok layout
  | value => .error (.notLayout value.typeName)

/-- The layout that a value is, for an operation on the layout alone. -/
def Value.expectMeasurable : Value → Except LayoutError Layout
  | .ofLayout layout => .ok layout
  | value => .error (.unsupportedLayout value.typeName)

/-- The error of an operation that does not support a layout. -/
def LayoutError.unsupported (layout : Layout) : LayoutError :=
  .unsupportedLayout layout.kind.typeName

end BitLayout
