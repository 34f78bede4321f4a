import BitLayout.Bits.Basic
import BitLayout.Layout.Error
import BitLayout.Path
import BitLayout.Text.Encoding

/-!
# Failures

Why decoding or encoding stops. A located failure has a cause and a path to the value or the layout
at fault; the others arise only from layouts that the builders would refuse.

## Main definitions

* `Cause`, `Cause.message`, `Cause.category`
* `Category`, `Category.ancestors`: the families that causes belong to, from special to general
* `Failure`, `Failure.message`, `Failure.within`
-/

namespace BitLayout

/-- Why a value cannot be decoded or encoded. -/
inductive Cause where
  /-- A read past the end of the data. -/
  | truncated (kind : Layout.Kind) (need : Integer) (available : Nat)
  | undecodableText (encoding : Text) (fault : DecodeFault)
  /-- Whole bytes left over. -/
  | trailingBytes (count : Nat) (kind : Layout.Kind)
  | unencodableText (encoding : Text) (fault : EncodeFault)
  /-- Nothing where an integer is needed. -/
  | missingInteger (kind : Layout.Kind)
  | notInteger (kind : Layout.Kind) (typeName : Text)
  | notBytes (typeName : Text)
  | notText (typeName : Text)
  | notList (typeName : Text)
  | notRecord (typeName : Text)
  /-- An embedded layout whose value is no record. -/
  | embeddedNotRecord (kind : Layout.Kind) (typeName : Text)
  | wrongLength (expected : Integer) (actual : Nat)
  | referenceOutsideSequence (name : Text)
  | noSuchField (name : Text)
  | fieldNotInteger (name : Text) (value : Value)
  | noMatchingCase (discriminant : Text) (key : Integer)
  /-- Bytes that start inside a byte. -/
  | misaligned (kind : Layout.Kind) (bitOffset : Nat)
  | branchOutsideSequence

/-- The families of failures. -/
inductive Category where
  | any
  | layout
  | codec
  | decode
  | truncated
  | encode
  | typeMismatch
  | lengthMismatch
  | unresolvedReference
  | noMatchingBranch
  | misalignedAccess
  | scope
deriving DecidableEq

namespace Category

/-- All families. -/
def all : List Category :=
  [.any, .layout, .codec, .decode, .truncated, .encode, .typeMismatch, .lengthMismatch,
   .unresolvedReference, .noMatchingBranch, .misalignedAccess, .scope]

/-- The name of a family. -/
def name : Category → Text
  | .any => "BitSchemaError"
  | .layout => "SchemaError"
  | .codec => "CodecError"
  | .decode => "DecodeError"
  | .truncated => "TruncatedInputError"
  | .encode => "EncodeError"
  | .typeMismatch => "TypeMismatchError"
  | .lengthMismatch => "LengthMismatchError"
  | .unresolvedReference => "UnresolvedReferenceError"
  | .noMatchingBranch => "NoMatchingBranchError"
  | .misalignedAccess => "MisalignedAccessError"
  | .scope => "ScopeError"

/-- A family with the families that contain it, the widest last. -/
def ancestors : Category → List Category
  | .any => [.any]
  | .layout => [.layout, .any]
  | .codec => [.codec, .any]
  | .truncated => [.truncated, .decode, .codec, .any]
  | .lengthMismatch => [.lengthMismatch, .encode, .codec, .any]
  | category => [category, .codec, .any]

end Category

namespace Cause

/-- The family of a cause. -/
def category : Cause → Category
  | .truncated .. => .truncated
  | .undecodableText .. => .decode
  | .trailingBytes .. => .decode
  | .unencodableText .. => .encode
  | .missingInteger _ => .typeMismatch
  | .notInteger .. => .typeMismatch
  | .notBytes _ => .typeMismatch
  | .notText _ => .typeMismatch
  | .notList _ => .typeMismatch
  | .notRecord _ => .typeMismatch
  | .embeddedNotRecord .. => .typeMismatch
  | .wrongLength .. => .lengthMismatch
  | .referenceOutsideSequence _ => .unresolvedReference
  | .noSuchField _ => .unresolvedReference
  | .fieldNotInteger .. => .unresolvedReference
  | .noMatchingCase .. => .noMatchingBranch
  | .misaligned .. => .misalignedAccess
  | .branchOutsideSequence => .scope

/-- The wording of a cause, without its place. -/
def message : Cause → Wording
  | .truncated kind need available =>
    "truncated " ++ kind.name ++ ": Not enough bits: need " ++ need.written ++ ", have " ++
      Wording.ofNat available
  | .undecodableText encoding fault => "invalid " ++ encoding ++ " text: " ++ fault.message
  | .trailingBytes count kind =>
    Wording.ofNat count ++ " trailing bytes after decoding " ++ kind.name
  | .unencodableText encoding fault =>
    "cannot encode text as " ++ encoding ++ ": " ++ fault.message
  | .missingInteger kind => "missing value for required " ++ kind.name
  | .notInteger kind typeName => kind.name ++ " expects an integer, got " ++ typeName
  | .notBytes typeName => "byteslice expects bytes, got " ++ typeName
  | .notText typeName => "text expects a str, got " ++ typeName
  | .notList typeName => "array expects a list, got " ++ typeName
  | .notRecord typeName => "sequence expects a mapping, got " ++ typeName
  | .embeddedNotRecord kind typeName =>
    "embedded " ++ kind.name ++ " must decode to a record, got " ++ typeName
  | .wrongLength expected actual =>
    "expected array with length " ++ expected.written ++ ", got " ++ Wording.ofNat actual
  | .referenceOutsideSequence name =>
    "reference to " ++ name.quoted ++ " used outside of any sequence"
  | .noSuchField name => "no field named " ++ name.quoted ++ " in the enclosing sequence"
  | .fieldNotInteger name value =>
    "field " ++ name.quoted ++ " must hold an integer, got " ++ value.typeName ++ " " ++
      value.written
  | .noMatchingCase discriminant key =>
    "no case matches " ++ discriminant ++ "=" ++ key.written ++ " and no else case"
  | .misaligned kind bitOffset =>
    kind.name ++ " must start on a byte boundary, bit offset is " ++ Wording.ofNat bitOffset
  | .branchOutsideSequence => "branch can only be used inside a sequence"

end Cause

/-- Why decoding or encoding stops. -/
inductive Failure where
  | located (path : Path) (cause : Cause)
  /-- A layout that the operation does not support. -/
  | layout (error : LayoutError)
  /-- A width or length that no cursor accepts. -/
  | cursor (error : CursorError)
  /-- The name of an encoding that cannot be looked up. -/
  | unusableEncodingName (fault : EncodingName.NameFault)
  /-- A name that stands for no encoding. -/
  | unknownEncoding (name : Text)
  /-- A name that stands for a conversion that is not between text and bytes, used to read or to
  write. -/
  | notTextEncoding (name : Text) (reading : Bool)

namespace Failure

/-- A failure of the layout at hand. -/
abbrev here (cause : Cause) : Failure := .located [] cause

/-- The failure seen from one level further out. -/
def within (element : PathElement) : Failure → Failure
  | .located path cause => .located (element :: path) cause
  | failure => failure

/-- The wording of a failure, led by the rendered path if that is not empty. -/
def message : Failure → Wording
  | .located path cause =>
    let location := path.render
    if location.isEmpty then cause.message else location ++ ": " ++ cause.message
  | .layout error => error.message
  | .cursor error => error.message
  | .unusableEncodingName fault => fault.message
  | .unknownEncoding name => "unknown encoding: " ++ name
  | .notTextEncoding name reading =>
    name.quoted ++ " is not a text encoding; use codecs." ++
      (if reading then ("decode" : Text) else "encode") ++ "() to handle arbitrary codecs"

end Failure

end BitLayout
