import BitLayout.Failure

/-!
# Errors as they are met

What a caller meets when a request is refused: an error of some class with words, and for a failure
inside a value the path to it. The words are put together when the error arises. If a numeral in them
is too long to be written, the caller meets the error of writing it instead, which has no path.

## Main definitions

* `ErrorClass`, `ErrorClass.name`
* `Raised`, `Raised.saying`
* `CursorError.raised`, `LayoutError.raised`, `Failure.raised`
-/

namespace BitLayout

/-- The class of an error: one of the families of failures, or a built-in class. -/
inductive ErrorClass where
  | family (category : Category)
  | value
  | index
  | overflow
  | memory
  | attribute
  | lookup
  | unicodeEncode
deriving DecidableEq

/-- The name of a class. -/
def ErrorClass.name : ErrorClass → Text
  | .family category => category.name
  | .value => "ValueError"
  | .index => "IndexError"
  | .overflow => "OverflowError"
  | .memory => "MemoryError"
  | .attribute => "AttributeError"
  | .lookup => "LookupError"
  | .unicodeEncode => "UnicodeEncodeError"

/-- An error as a caller meets it. -/
structure Raised where
  errorClass : ErrorClass
  words : Text
  /-- Where in a value, for the errors that tell. -/
  path? : Option Path
deriving DecidableEq

/-- An error with a message. A message that cannot be written is an error of its own. -/
def Raised.saying (errorClass : ErrorClass) (message : Wording) (path? : Option Path) : Raised :=
  if message.isWritable then ⟨errorClass, message.shown, path?⟩
  else ⟨.value, message.shown, none⟩

@[simp] theorem Raised.errorClass_saying (errorClass : ErrorClass) (message : Wording)
    (path? : Option Path) :
    (saying errorClass message path?).errorClass =
      if message.isWritable then errorClass else .value := by
  rw [saying]
  split <;> rfl

@[simp] theorem Raised.path?_saying (errorClass : ErrorClass) (message : Wording)
    (path? : Option Path) :
    (saying errorClass message path?).path? = if message.isWritable then path? else none := by
  rw [saying]
  split <;> rfl

/-- The class of a refused request to a cursor. -/
def CursorError.errorClass : CursorError → ErrorClass
  | .outOfBits .. => .index
  | .numberTooWide => .overflow
  | .outOfMemory => .memory
  | .widthNotPositive _ | .countNegative _ | .unalignedWrite _ | .unalignedRead _ => .value

/-- What is met of a refused request to a cursor. -/
def CursorError.raised (error : CursorError) : Raised :=
  .saying error.errorClass error.message none

/-- The class of the error of looking up the name of an encoding. -/
def EncodingName.NameFault.errorClass : EncodingName.NameFault → ErrorClass
  | .embeddedNull => .value
  | .unencodable _ => .unicodeEncode

/-- The class of the error about a layout. -/
def LayoutError.errorClass : LayoutError → ErrorClass
  | .slotWithoutLayout _ | .layoutWithoutWidth _ => .attribute
  | .unusableEncodingName fault => fault.errorClass
  | _ => .family .layout

/-- What is met of an error about a layout. -/
def LayoutError.raised (error : LayoutError) : Raised :=
  .saying error.errorClass error.message none

namespace Failure

/-- The class of a failure. -/
def errorClass : Failure → ErrorClass
  | .located _ cause => .family cause.category
  | .layout error => error.errorClass
  | .cursor error => error.errorClass
  | .unusableEncodingName fault => fault.errorClass
  | .unknownEncoding _ | .notTextEncoding .. => .lookup

/-- The path of a failure inside a value. -/
def path? : Failure → Option Path
  | .located path _ => some path
  | _ => none

/-- What is met of a failure. -/
def raised (failure : Failure) : Raised :=
  .saying failure.errorClass failure.message failure.path?

end Failure

end BitLayout
