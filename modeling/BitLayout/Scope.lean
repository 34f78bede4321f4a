import BitLayout.Failure

/-!
# References to sibling fields

Array lengths, byte counts and discriminants may name a field of the record around them. The scope
is that record: while decoding, the fields decoded so far; while encoding, the whole record.

## Main definitions

* `Scope`
* `resolveField`: the integer in a field
* `Length.resolve`: a literal length or the integer in a field
* `Layout.choose?`: the layout that a branch chooses for a value of any type
-/

namespace BitLayout

/-- The record around a layout, `none` outside any sequence. -/
abbrev Scope := Option Entries

/-- The integer in the field with the given name. -/
def resolveField (scope : Scope) (name : Text) : Except Cause Integer :=
  match scope with
  | none => .error (.referenceOutsideSequence name)
  | some entries =>
    match entries.field? name with
    | none => .error (.noSuchField name)
    | some .null => .error (.noSuchField name)
    | some value =>
      match value.integer? with
      | some n => .ok n
      | none => .error (.fieldNotInteger name value)

/-- A literal length or the integer in the field that it names. -/
def Length.resolve (scope : Scope) : Length → Except Cause Integer
  | .literal count => .ok count
  | .field name => resolveField scope name

/-- The first case whose key equals a value, otherwise the layout for all other keys. -/
def Layout.choose? (cases : List (Integer × Layout)) (otherwise : Option Layout) (value : Value) :
    Option Layout :=
  match cases.find? fun (key, _) => Value.equals (.ofInteger key) value with
  | some (_, layout) => some layout
  | none => otherwise

end BitLayout
