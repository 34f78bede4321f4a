/-!
# Outcomes of computations that may stop

A computation that may stop succeeds exactly if each of its steps does, and it stops where the first
of them stops. Two computations whose steps come to the same do so themselves, up to the errors with
which they stop.

## Main definitions

* `SameUpTo`: the same answer, or errors that are related
-/

namespace BitLayout

variable {α β ε ε' : Type}

section Success

theorem bind_eq_ok_iff {step : Except ε α} {next : α → Except ε β} {b : β} :
    (step >>= next) = .ok b ↔ ∃ a, step = .ok a ∧ next a = .ok b := by
  cases step <;> simp [bind, Except.bind]

theorem mapError_eq_ok_iff {step : Except ε α} {f : ε → ε'} {a : α} :
    step.mapError f = .ok a ↔ step = .ok a := by
  cases step with
  | error e => exact ⟨nofun, nofun⟩
  | ok b =>
    constructor
    · intro same
      cases same
      rfl
    · intro same
      cases same
      rfl

theorem map_eq_ok_iff {step : Except ε α} {f : α → β} {b : β} :
    (f <$> step) = .ok b ↔ ∃ a, step = .ok a ∧ f a = b := by
  cases step <;> simp [Functor.map, Except.map]

theorem toOption_eq_some_iff {step : Except ε α} {a : α} :
    step.toOption = some a ↔ step = .ok a := by
  cases step <;> simp [Except.toOption]

end Success

section Stop

theorem bind_eq_error_iff {step : Except ε α} {next : α → Except ε β} {e : ε} :
    (step >>= next) = .error e ↔
      step = .error e ∨ ∃ a, step = .ok a ∧ next a = .error e := by
  cases step <;> simp [bind, Except.bind]

theorem mapError_eq_error_iff {step : Except ε α} {f : ε → ε'} {e' : ε'} :
    step.mapError f = .error e' ↔ ∃ e, step = .error e ∧ f e = e' := by
  cases step with
  | error e =>
    constructor
    · intro same
      cases same
      exact ⟨e, rfl, rfl⟩
    · rintro ⟨_, same, rfl⟩
      cases same
      rfl
  | ok a =>
    constructor
    · intro same
      cases same
    · rintro ⟨_, same, -⟩
      cases same

theorem map_eq_error_iff {step : Except ε α} {f : α → β} {e : ε} :
    (f <$> step) = .error e ↔ step = .error e := by
  cases step <;> simp [Functor.map, Except.map]

end Stop

section Related

variable {R : ε → ε → Prop}

/-- The same answer, or errors that are related. -/
inductive SameUpTo (R : ε → ε → Prop) : Except ε α → Except ε α → Prop
  | ok (a : α) : SameUpTo R (.ok a) (.ok a)
  | error {e e' : ε} (related : R e e') : SameUpTo R (.error e) (.error e')

namespace SameUpTo

theorem refl (related : ∀ e, R e e) (outcome : Except ε α) : SameUpTo R outcome outcome := by
  cases outcome with
  | ok a => exact .ok a
  | error e => exact .error (related e)

theorem eq_of_ok {a : α} {outcome : Except ε α} (same : SameUpTo R (.ok a) outcome) :
    outcome = .ok a := by
  cases same
  rfl

/-- Steps that come to the same are followed by steps with the same answer before them. -/
theorem bind {step step' : Except ε α} {next next' : α → Except ε β} (first : SameUpTo R step step')
    (second : ∀ a, step = .ok a → step' = .ok a → SameUpTo R (next a) (next' a)) :
    SameUpTo R (step >>= next) (step' >>= next') := by
  cases first with
  | ok a => exact second a rfl rfl
  | error related => exact .error related

theorem mapError {R' : ε' → ε' → Prop} {step step' : Except ε α} {f : ε → ε'}
    (first : SameUpTo R step step') (keeps : ∀ e e', R e e' → R' (f e) (f e')) :
    SameUpTo R' (step.mapError f) (step'.mapError f) := by
  cases first with
  | ok a => exact .ok a
  | error related => exact .error (keeps _ _ related)

theorem map {step step' : Except ε α} (first : SameUpTo R step step') (f : α → β) :
    SameUpTo R (f <$> step) (f <$> step') := by
  cases first with
  | ok a => exact .ok (f a)
  | error related => exact .error related

end SameUpTo

end Related

end BitLayout
