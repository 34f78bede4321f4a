import BitLayout.Encoder
import BitLayout.Proofs.Value.Entries
import Mathlib.Data.List.Forall2

/-!
# The numbers in a value

Two values are alike if they differ in numbers only: they have the same lists, tuples and records
with the same keys in the same order, and whatever is no number is the same in both. Numbers are
changed place by place, where a place is the path that leads to it.

## Main definitions

* `Value.Alike`: the same value up to its numbers
* `Value.at?`: the part of a value at a path
* `Value.mapNumbers`: a value with its numbers changed, each by its path

## Main results

* `Value.alike_mapNumbers`: changing numbers gives an alike value
* `Value.at?_mapNumbers`: the parts of a value whose numbers are changed
-/

namespace BitLayout

/-- The same value, except that its numbers, those inside lists, tuples and records included, may be
other numbers. Truth values are no numbers here. -/
inductive Value.Alike : Value → Value → Prop
  | same (value : Value) : Value.Alike value value
  | int (m n : Int) : Value.Alike (.int m) (.int n)
  | list {items items' : List Value} (each : List.Forall₂ Value.Alike items items') :
    Value.Alike (.list items) (.list items')
  | tuple {items items' : List Value} (each : List.Forall₂ Value.Alike items items') :
    Value.Alike (.tuple items) (.tuple items')
  | dict {entries entries' : List (Value × Value)}
    (keys : entries.map Prod.fst = entries'.map Prod.fst)
    (values : List.Forall₂ Value.Alike (entries.map Prod.snd) (entries'.map Prod.snd)) :
    Value.Alike (.dict entries) (.dict entries')

/-- Records with the same keys in the same order, with alike values. -/
structure Entries.Alike (entries entries' : Entries) : Prop where
  keys : entries.keys = entries'.keys
  values : List.Forall₂ Value.Alike (entries.map Prod.snd) (entries'.map Prod.snd)

section Alike

variable {entries entries' : Entries} {value value' : Value}

theorem Entries.alike_refl (entries : Entries) : entries.Alike entries :=
  ⟨rfl, List.forall₂_same.mpr fun value _ => .same value⟩

theorem Entries.alike_cons_iff {key key' : Value} {rest rest' : Entries} :
    Entries.Alike ((key, value) :: rest) ((key', value') :: rest') ↔
      key = key' ∧ value.Alike value' ∧ rest.Alike rest' := by
  constructor
  · rintro ⟨keys, values⟩
    obtain ⟨same, keys⟩ := List.cons_eq_cons.mp keys
    obtain ⟨first, others⟩ := List.forall₂_cons.mp values
    exact ⟨same, first, keys, others⟩
  · rintro ⟨rfl, first, keys, others⟩
    exact ⟨List.cons_eq_cons.mpr ⟨rfl, keys⟩, .cons first others⟩

/-- Alike records have alike fields, or both lack them. -/
theorem Entries.Alike.field? (alike : entries.Alike entries') (name : Text) :
    (entries.field? name = none ∧ entries'.field? name = none) ∨
      ∃ value value', entries.field? name = some value ∧ entries'.field? name = some value' ∧
        value.Alike value' := by
  induction entries generalizing entries' with
  | nil =>
    cases entries' with
    | nil => exact Or.inl ⟨rfl, rfl⟩
    | cons entry' rest' => cases alike.keys
  | cons entry rest ih =>
    cases entries' with
    | nil => cases alike.keys
    | cons entry' rest' =>
      obtain ⟨key, value⟩ := entry
      obtain ⟨key', value'⟩ := entry'
      obtain ⟨rfl, first, others⟩ := alike_cons_iff.mp alike
      by_cases same : key = .text name
      · rw [same, field?_cons_self, field?_cons_self]
        exact Or.inr ⟨value, value', rfl, rfl, first⟩
      · rw [field?_cons_of_ne same, field?_cons_of_ne same]
        exact ih others

namespace Value.Alike

theorem typeName_eq (alike : value.Alike value') : value.typeName = value'.typeName := by
  cases alike <;> rfl

theorem dict_inv {entries : Entries} (alike : Value.Alike (.dict entries) value') :
    ∃ entries' : Entries, value' = .dict entries' ∧ entries.Alike entries' := by
  cases alike with
  | same => exact ⟨entries, rfl, entries.alike_refl⟩
  | dict keys values => exact ⟨_, rfl, keys, values⟩

theorem items?_inv (alike : value.Alike value') :
    (value.items? = none ∧ value'.items? = none) ∨
      ∃ items items', value.items? = some items ∧ value'.items? = some items' ∧
        List.Forall₂ Value.Alike items items' := by
  cases alike with
  | same =>
    cases value.items? with
    | none => exact Or.inl ⟨rfl, rfl⟩
    | some items =>
      exact Or.inr ⟨items, items, rfl, rfl, List.forall₂_same.mpr fun item _ => .same item⟩
  | int | dict => exact Or.inl ⟨rfl, rfl⟩
  | list each | tuple each => exact Or.inr ⟨_, _, rfl, rfl, each⟩

end Value.Alike

end Alike

/-- The part of a value at a path. A field that a record lacks holds nothing. -/
def Value.at? (value : Value) (path : Path) : Option Value :=
  match path with
  | [] => some value
  | .field name :: rest =>
    match value with
    | .dict entries => ((Entries.field? entries name).getD .null).at? rest
    | _ => none
  | .index (.number (.ofNat index)) :: rest =>
    value.items?.bind fun items => items[index]?.bind fun item => item.at? rest
  | _ => none
termination_by structural path

mutual

/-- A value with its numbers changed, each by its path. -/
def Value.mapNumbers (f : Path → Int → Int) : Value → Value
  | .int n => .int (f [] n)
  | .list items => .list (mapNumbersInItems f 0 items)
  | .tuple items => .tuple (mapNumbersInItems f 0 items)
  | .dict entries => .dict (mapNumbersInEntries f entries)
  | value => value

/-- The same for items, of which the first is at position `index`. -/
def mapNumbersInItems (f : Path → Int → Int) (index : Nat) : List Value → List Value
  | [] => []
  | first :: others =>
    first.mapNumbers (fun path => f (.index index :: path)) ::
      mapNumbersInItems f (index + 1) others

/-- The same for the values of a record. Only the values of fields have paths. -/
def mapNumbersInEntries (f : Path → Int → Int) : List (Value × Value) → List (Value × Value)
  | [] => []
  | (.text name, value) :: rest =>
    (.text name, value.mapNumbers fun path => f (.field name :: path)) ::
      mapNumbersInEntries f rest
  | entry :: rest => entry :: mapNumbersInEntries f rest

end

section Changing

variable {f : Path → Int → Int}

mutual

/-- Changing numbers gives an alike value. -/
theorem Value.alike_mapNumbers (f : Path → Int → Int) (value : Value) :
    value.Alike (value.mapNumbers f) := by
  cases value with
  | int n => exact .int n _
  | list items => exact .list (alike_mapNumbersInItems f 0 items)
  | tuple items => exact .tuple (alike_mapNumbersInItems f 0 items)
  | dict entries =>
    obtain ⟨keys, values⟩ := alike_mapNumbersInEntries f entries
    exact .dict keys values
  | null | bool | float | text | bytes | embedMarker | ofLayout | ofSlot | other => exact .same _

theorem alike_mapNumbersInItems (f : Path → Int → Int) (index : Nat) (items : List Value) :
    List.Forall₂ Value.Alike items (mapNumbersInItems f index items) := by
  cases items with
  | nil => exact .nil
  | cons first others =>
    exact .cons (first.alike_mapNumbers _) (alike_mapNumbersInItems f (index + 1) others)

theorem alike_mapNumbersInEntries (f : Path → Int → Int) (entries : Entries) :
    entries.Alike (mapNumbersInEntries f entries) := by
  cases entries with
  | nil => exact Entries.alike_refl []
  | cons entry rest =>
    obtain ⟨key, value⟩ := entry
    have others := alike_mapNumbersInEntries f rest
    cases key with
    | text name => exact Entries.alike_cons_iff.mpr ⟨rfl, value.alike_mapNumbers _, others⟩
    | _ => exact Entries.alike_cons_iff.mpr ⟨rfl, .same value, others⟩

end

theorem getElem?_mapNumbersInItems (items : List Value) (start index : Nat) :
    (mapNumbersInItems f start items)[index]? =
      items[index]?.map fun item =>
        item.mapNumbers fun path => f (.index (start + index : Nat) :: path) := by
  induction items generalizing start index with
  | nil => rfl
  | cons first others ih =>
    cases index with
    | zero => rfl
    | succ index =>
      rw [mapNumbersInItems, List.getElem?_cons_succ, List.getElem?_cons_succ, ih,
        Nat.add_right_comm, Nat.add_assoc]

theorem field?_mapNumbersInEntries (entries : Entries) (name : Text) :
    Entries.field? (mapNumbersInEntries f entries) name =
      (entries.field? name).map fun value =>
        value.mapNumbers fun path => f (.field name :: path) := by
  induction entries with
  | nil => rfl
  | cons entry rest ih =>
    obtain ⟨key, value⟩ := entry
    by_cases same : key = .text name
    · rw [same, mapNumbersInEntries, Entries.field?_cons_self, Entries.field?_cons_self]
      rfl
    · rw [Entries.field?_cons_of_ne same, ← ih]
      cases key with
      | _ => exact Entries.field?_cons_of_ne same

/-- The parts of a value whose numbers are changed are those of the value with their numbers
changed. -/
theorem Value.at?_mapNumbers (f : Path → Int → Int) (value : Value) (path : Path) :
    (value.mapNumbers f).at? path =
      (value.at? path).map fun part => part.mapNumbers fun rest => f (path ++ rest) := by
  induction path generalizing f value with
  | nil => rfl
  | cons element rest ih =>
    cases element with
    | field name =>
      cases value with
      | dict entries =>
        have field : ((Entries.field? (mapNumbersInEntries f entries) name).getD .null) =
            ((Entries.field? entries name).getD .null).mapNumbers fun path =>
              f (.field name :: path) := by
          rw [field?_mapNumbersInEntries]
          cases Entries.field? entries name <;> rfl
        rw [mapNumbers, at?, field, ih]
        rfl
      | _ => rfl
    | index position =>
      cases position with
      | truth b => rfl
      | number n =>
        cases n with
        | negSucc n => rfl
        | ofNat index =>
          cases value with
          | list items | tuple items =>
            change ((mapNumbersInItems f 0 items)[index]?.bind fun item => item.at? rest) =
              (items[index]?.bind fun item => item.at? rest).map _
            rw [getElem?_mapNumbersInItems, Nat.zero_add]
            cases items[index]? with
            | none => rfl
            | some item => exact ih _ item
          | _ => rfl

end Changing

end BitLayout
