import BitLayout.Scope
import BitLayout.Proofs.Value.Entries
import Mathlib.Data.Set.Basic

/-!
# Scopes that resolve the same references

While decoding, a reference is resolved in the fields read so far; while encoding, in the whole
record. One scope supports another one if every reference that the other one resolves comes to the
same number in it, at least for the names that may be referred to.

## Main definitions

* `Length.RefersTo`: a length that names no field besides the given ones
* `Scope.Supports`

## Main results

* `resolveField_eq_ok_iff`: what a reference needs
* `Entries.Extends.resolve`: lengths in a record with more fields
* `Scope.supports_of_extends`: a record with more fields supports one with fewer
* `Scope.Supports.resolve`: lengths in a supporting scope
-/

namespace BitLayout

/-- A reference needs a field with an integer. -/
theorem resolveField_eq_ok_iff {scope : Scope} {name : Text} {n : Integer} :
    resolveField scope name = .ok n ↔
      ∃ record value, scope = some record ∧ record.field? name = some value ∧
        value.integer? = some n := by
  cases scope with
  | none => simp [resolveField]
  | some record =>
    cases found : record.field? name with
    | none => simp [resolveField, found]
    | some value =>
      -- Numbers and truth values resolve, every other kind of value is refused.
      cases value <;> simp [resolveField, found, Value.integer?]

/-- A reference is resolved alike in a record with more fields. -/
theorem Entries.Extends.resolveField {whole record : Entries} (extension : whole.Extends record)
    {name : Text} {n : Integer} (resolved : resolveField (some record) name = .ok n) :
    BitLayout.resolveField (some whole) name = .ok n := by
  obtain ⟨_, value, same, found, number⟩ := resolveField_eq_ok_iff.mp resolved
  cases same
  exact resolveField_eq_ok_iff.mpr ⟨whole, value, rfl, extension name value found, number⟩

theorem Entries.Extends.resolve {whole record : Entries} (extension : whole.Extends record)
    {length : Length} {n : Integer}
    (resolved : length.resolve (some record) = .ok n) : length.resolve (some whole) = .ok n := by
  cases length with
  | literal count => exact resolved
  | field name => exact extension.resolveField resolved

/-- A branch chooses by the number of its discriminant, whatever its spelling. -/
theorem Layout.select_congr {cases : List (Integer × Layout)} {otherwise : Option Layout}
    {m n : Integer} (same : m.toInt = n.toInt) :
    select cases otherwise m = select cases otherwise n := by
  induction cases with
  | nil => rfl
  | cons entry rest ih =>
    obtain ⟨k, layout⟩ := entry
    rw [select, select, ih, Integer.same, Integer.same, same]

/-- A length that is a count or names one of the given fields. -/
def Length.RefersTo (known : Set Text) : Length → Prop
  | .literal _ => True
  | .field name => name ∈ known

theorem Length.refersTo_univ (length : Length) : length.RefersTo Set.univ := by
  cases length <;> trivial

namespace Scope

/-- Every reference to a known name that the second scope resolves comes to the same number in the
first one. -/
def Supports (scope' : Scope) (known : Set Text) (scope : Scope) : Prop :=
  ∀ name ∈ known, ∀ n, resolveField scope name = .ok n →
    ∃ n', resolveField scope' name = .ok n' ∧ n'.toInt = n.toInt

variable {scope scope' : Scope} {known : Set Text}

/-- Outside any sequence no reference is resolved. -/
theorem supports_none (scope' : Scope) (known : Set Text) : scope'.Supports known none := by
  intro name _ n resolved
  obtain ⟨_, _, absurdity, -⟩ := resolveField_eq_ok_iff.mp resolved
  cases absurdity

theorem supports_of_extends {whole entries : Entries} (extension : whole.Extends entries) :
    Supports (some whole) known (some entries) := by
  intro name _ n resolved
  -- The field is found again with the same value, so the number is even spelled the same.
  exact ⟨n, extension.resolveField resolved, rfl⟩

theorem Supports.resolve (supports : scope'.Supports known scope) {length : Length}
    (refers : length.RefersTo known) {n : Integer} (resolved : length.resolve scope = .ok n) :
    ∃ n', length.resolve scope' = .ok n' ∧ n'.toInt = n.toInt := by
  cases length with
  | literal count => exact ⟨n, resolved, rfl⟩
  | field name => exact supports name refers n resolved

/-- A branch in a supporting scope makes the same choice. -/
theorem Supports.select (supports : scope'.Supports known scope) {discriminant : Text}
    (refers : discriminant ∈ known) {key : Integer} {cases : List (Integer × Layout)}
    {otherwise : Option Layout} {layout : Layout}
    (found : resolveField scope discriminant = .ok key)
    (chosen : Layout.select cases otherwise key = some layout) :
    ∃ key', resolveField scope' discriminant = .ok key' ∧
      Layout.select cases otherwise key' = some layout := by
  obtain ⟨key', found', same⟩ := supports discriminant refers key found
  exact ⟨key', found', by rw [Layout.select_congr same, chosen]⟩

end Scope

end BitLayout
