import BitLayout.Bits.Memory
import BitLayout.Layout.Error
import BitLayout.Path

/-!
# Record models

A model names the fields of a record, their types and defaults, and the layout that the record is
read and written by.

## Main definitions

* `FieldType`, `Field`, `Model`
* `FieldType.unsigned`, `Model.make`: checked constructors
* `Issue`, `IssueKind`: what is wrong with a value, and where
-/

namespace BitLayout

mutual

/-- What a field may hold. -/
inductive FieldType where
  | int
  /-- An integer from zero to below two to the power of `bits`. -/
  | unsigned (bits : Nat)
  | bytes
  /-- A byte string of exactly this length. -/
  | fixedBytes (length : Nat)
  | text
  | list (item : FieldType)
  /-- Nothing or something of a type. -/
  | optional (content : FieldType)
  /-- A record of another model. -/
  | record (model : Model)
  /-- Any record. -/
  | dict
  | any

/-- A name, what may be stored under it, and what is stored if nothing is given. -/
inductive Field where
  | mk (name : Text) (type : FieldType) (default : Option Value)

/-- The fields of a record in order and its layout, if it has one. -/
inductive Model where
  | mk (name : Text) (fields : List Field) (layout : Option Layout)

end

namespace Field

/-- The name of a field. -/
def name : Field → Text
  | .mk name _ _ => name

/-- What a field may hold. -/
def type : Field → FieldType
  | .mk _ type _ => type

/-- What is stored if nothing is given. -/
def default : Field → Option Value
  | .mk _ _ default => default

end Field

/-- Why a type of field cannot be made. -/
inductive FieldTypeError where
  | bitsNotPositive (bits : Integer)
  /-- Integers for which there is no room. -/
  | noRoom (error : CursorError)
deriving DecidableEq

/-- The wording of a reason. -/
def FieldTypeError.message : FieldTypeError → Wording
  | .bitsNotPositive bits => "bits must be positive, got " ++ bits.written
  | .noRoom error => error.message

namespace FieldType

/-- The integers of at most `bits` bits, of which there must be one at least, if there is room for
the greatest of them. -/
def ofBits (memory : Memory) (bits : Integer) : Except FieldTypeError FieldType :=
  if bits.toInt < 1 then .error (.bitsNotPositive bits)
  else do
    (memory.reserve bits.toNat).mapError .noRoom
    .ok (.unsigned bits.toNat)

end FieldType

namespace Model

/-- The name of a model. -/
def name : Model → Text
  | .mk name _ _ => name

/-- The fields of a model. -/
def fields : Model → List Field
  | .mk _ fields _ => fields

/-- A model with an optional layout, which must be a sequence. -/
def make (name : Text) (fields : List Field) (layout : Value) : Except LayoutError Model :=
  match layout with
  | .null => .ok (.mk name fields none)
  | .ofLayout (.sequence slots) => .ok (.mk name fields (some (.sequence slots)))
  | layout => .error (.recordLayoutNotSequence name layout.typeName)

/-- The layout of a model. -/
def expectLayout : Model → Except LayoutError Layout
  | .mk _ _ (some layout) => .ok layout
  | .mk name _ none => .error (.recordWithoutLayout name)

end Model

/-- What is wrong with a value. -/
inductive IssueKind where
  | missing
  | extraForbidden
  | invalidKey
  | noSuchAttribute
  | intType
  | intParsing
  | intParsingSize
  | intFromFloat
  | finiteNumber
  | greaterThanEqual
  | lessThanEqual
  | bytesType
  | bytesTooShort
  | bytesTooLong
  | stringType
  | stringUnicode
  | listType
  | dictType
  | modelType
deriving DecidableEq

/-- The name of what is wrong. -/
def IssueKind.name : IssueKind → Text
  | .missing => "missing"
  | .extraForbidden => "extra_forbidden"
  | .invalidKey => "invalid_key"
  | .noSuchAttribute => "no_such_attribute"
  | .intType => "int_type"
  | .intParsing => "int_parsing"
  | .intParsingSize => "int_parsing_size"
  | .intFromFloat => "int_from_float"
  | .finiteNumber => "finite_number"
  | .greaterThanEqual => "greater_than_equal"
  | .lessThanEqual => "less_than_equal"
  | .bytesType => "bytes_type"
  | .bytesTooShort => "bytes_too_short"
  | .bytesTooLong => "bytes_too_long"
  | .stringType => "string_type"
  | .stringUnicode => "string_unicode"
  | .listType => "list_type"
  | .dictType => "dict_type"
  | .modelType => "model_type"

/-- Something wrong with a value, and where in it. -/
structure Issue where
  kind : IssueKind
  location : Path
deriving DecidableEq

/-- The issue seen from one level further out. -/
def Issue.within (element : PathElement) (issue : Issue) : Issue :=
  { issue with location := element :: issue.location }

end BitLayout
