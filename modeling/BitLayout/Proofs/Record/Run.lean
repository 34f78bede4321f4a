import BitLayout.Proofs.Record.Library

/-!
# Runs of steps on records

Records are made from what is given or read from bytes, and their fields are replaced, those of the
records in them too; records that were made before may be given for others. A step that fails changes
nothing. What a library enforces one field at a time holds of all records after any number of steps.

## Main definitions

* `RecordLibrary.Step`, `RecordLibrary.run`: steps and what they leave
* `RecordLibrary.Sound`: every field without a default holds what it may

## Main results

* `RecordLibrary.reached_run`: a run stays within the states that a library can be in
* `RecordLibrary.Enforces.sound_step`: a step keeps records sound
* `RecordLibrary.Enforces.sound_run`: all records that a run leaves are sound
-/

namespace BitLayout

namespace RecordLibrary

/-- A step on the records of a library. -/
inductive Step (library : RecordLibrary) where
  /-- A record from what is given for it. -/
  | new (model : Model) (given : library.Given)
  /-- A record from bytes. -/
  | fromBytes (model : Model) (data : Value) (strict : Bool)
  /-- Something else for a field of a record. -/
  | assign (record : library.Record) (name : Text) (given : library.Given)

section Steps

variable {library : RecordLibrary} (memory : Memory)

/-- The state after a step. -/
def step (s : library.State) : library.Step → library.State
  | .new model given => (library.create model given s).2
  | .fromBytes model data strict => (library.fromBytes memory model data strict s).2
  | .assign record name given => (library.assign record name given s).2

/-- The state after steps one after another, starting without any record. -/
def run (steps : List library.Step) : library.State := steps.foldl (step memory) library.start

end Steps

/-- Every field without a default holds what it may, in all records that there are. -/
def Sound (library : RecordLibrary) (s : library.State) : Prop :=
  ∀ ⦃record model⦄, library.model? s record = some model →
    ∀ field ∈ model.fields, field.default = none → library.Enforced s record field

variable {library : RecordLibrary} {s s' : library.State}

/-- What may be held stays so while records stay what they are. -/
theorem Admits.mono (stays : ∀ {record model}, library.model? s record = some model →
    library.model? s' record = some model) {type : FieldType} {object : Object library.Record}
    (admits : library.Admits s type object) : library.Admits s' type object := by
  induction admits with
  | int => exact .int
  | unsigned least less => exact .unsigned least less
  | bytes => exact .bytes
  | fixedBytes same => exact .fixedBytes same
  | text => exact .text
  | list _ each => exact .list each
  | nothing => exact .nothing
  | optional _ inside => exact .optional inside
  | record there => exact .record (stays there)
  | dict => exact .dict
  | any => exact .any

/-- A field that has not been enforced anew holds what it has held before. -/
theorem Sound.advance (sound : library.Sound s) (advances : library.Advances s s') :
    library.Sound s' := by
  intro record model there field declared required
  rcases advances.fields there field declared required with ⟨before, same⟩ | enforced
  · obtain ⟨object, held, admits⟩ := sound before field declared required
    exact ⟨object, same.trans held, admits.mono advances.stays⟩
  · exact enforced

/-- Reading a record from bytes makes one or changes nothing. -/
theorem fromBytes_eq_ok_iff {memory : Memory} {model : Model} {data : Value} {strict : Bool}
    {record : library.Record} :
    library.fromBytes memory model data strict s = (.ok record, s') ↔
      ∃ value, model.decodeBuffer memory data strict = .ok value ∧
        library.create model (library.ofValue value) s = (.ok record, s') := by
  rw [fromBytes]
  cases decoded : model.decodeBuffer memory data strict with
  | error error => simp
  | ok value =>
    cases made : library.create model (library.ofValue value) s with
    | mk outcome after => cases outcome <;> simp [Except.mapError, made]

/-- A step leads to a state that the library can be in. -/
theorem Reached.step {memory : Memory} (reached : library.Reached s) (step : library.Step) :
    library.Reached (library.step memory s step) := by
  cases step with
  | new model given => exact reached.create model given
  | fromBytes model data strict =>
    rw [RecordLibrary.step, fromBytes]
    split
    · exact reached
    · exact reached.create model _
  | assign record name given => exact reached.assign record name given

/-- So does a run. -/
theorem reached_run {memory : Memory} (steps : List library.Step) :
    library.Reached (library.run memory steps) := by
  suffices ∀ s, library.Reached s → library.Reached (steps.foldl (library.step memory) s) from
    this _ .start
  induction steps with
  | nil => exact fun _ reached => reached
  | cons step rest ih => exact fun s reached => ih _ (reached.step step)

namespace Enforces

variable {memory : Memory}

theorem sound_create (enforces : library.Enforces) (reached : library.Reached s)
    (sound : library.Sound s) (model : Model) (given : library.Given) :
    library.Sound (library.create model given s).2 := by
  cases made : library.create model given s with
  | mk outcome after =>
    cases outcome with
    | ok record => exact sound.advance (enforces.create_ok reached made).1
    | error issues => exact enforces.create_error reached made ▸ sound

/-- One step keeps all records sound. -/
theorem sound_step (enforces : library.Enforces) (reached : library.Reached s)
    (sound : library.Sound s) (step : library.Step) :
    library.Sound (library.step memory s step) := by
  cases step with
  | new model given => exact enforces.sound_create reached sound model given
  | fromBytes model data strict =>
    rw [RecordLibrary.step, fromBytes]
    split
    · exact sound
    · exact enforces.sound_create reached sound model _
  | assign record name given =>
    rw [RecordLibrary.step]
    cases assigned : library.assign record name given s with
    | mk outcome after =>
      cases outcome with
      | ok done => exact sound.advance (enforces.assign_ok reached assigned)
      | error error => exact enforces.assign_error reached assigned ▸ sound

/-- Any number of steps leave sound records only. -/
theorem sound_run (enforces : library.Enforces) (steps : List library.Step) :
    library.Sound (library.run memory steps) := by
  have none_yet : library.Sound library.start := by
    intro record model there
    rw [enforces.start record] at there
    cases there
  -- From any sound state, one step at a time.
  suffices ∀ s, library.Reached s → library.Sound s →
      library.Sound (steps.foldl (library.step memory) s) from this _ .start none_yet
  induction steps with
  | nil => exact fun _ _ sound => sound
  | cons step rest ih =>
    exact fun s reached sound => ih _ (reached.step step) (enforces.sound_step reached sound step)

end Enforces

end RecordLibrary

end BitLayout
