import BitLayout.Decoder
import BitLayout.Encoder
import BitLayout.Record.Library
import BitLayout.Value.Buffer

/-!
# Records and bytes

A record is made of the values that the layout of its model decodes from bytes, and its values are
encoded to bytes by the same layout. How records are made and what their values are is up to the
library of records.

## Main definitions

* `RecordError`
* `Model.decodeBuffer`
* `RecordLibrary.fromBytes`, `RecordLibrary.toBytes`
-/

namespace BitLayout

/-- Why a record cannot be read or written. -/
inductive RecordError where
  | failure (failure : Failure)
  /-- Data that is no byte buffer. -/
  | buffer (error : BufferError)
  /-- Decoded values that do not validate. -/
  | invalid (model : Text) (issues : List Issue)

/-- The wording of a reason, without the issues. -/
def RecordError.message : RecordError → Wording
  | .failure inner => inner.message
  | .buffer error => error.message
  | .invalid model _ => "Failed to construct " ++ model

/-- What the layout of a model decodes from a buffer. -/
def Model.decodeBuffer (memory : Memory) (model : Model) (data : Value) (strict : Bool) :
    Except RecordError Value := do
  let layout ← model.expectLayout.mapError (.failure ∘ .layout)
  let bytes ← (data.toBuffer memory).mapError .buffer
  (layout.decodeBytes bytes strict).mapError .failure

namespace RecordLibrary

variable (library : RecordLibrary)

/-- Makes the record that a buffer spells. -/
def fromBytes (memory : Memory) (model : Model) (data : Value) (strict : Bool)
    (s : library.State) : Except RecordError library.Record × library.State :=
  match model.decodeBuffer memory data strict with
  | .error error => (.error error, s)
  | .ok value =>
    let (made, s') := library.create model (library.ofValue value) s
    (made.mapError (.invalid model.name), s')

/-- The bytes of a record of a model. -/
def toBytes (memory : Memory) (model : Model) (s : library.State) (record : library.Record) :
    Except Failure (List UInt8) := do
  let layout ← model.expectLayout.mapError .layout
  layout.encodeWithin memory (.dict (library.dump s record))

end RecordLibrary

end BitLayout
