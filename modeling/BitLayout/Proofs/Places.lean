import BitLayout.Path
import BitLayout.Proofs.Layout.Decidable
import BitLayout.Proofs.References
import BitLayout.Proofs.Value.Numbers

/-!
# Places in a value

A path leads from a value to a part of it, by the names of fields and the positions of items. What an
encoder hands down is such a part: a named slot adds its name to the path, an item its position, and
an embedded layout or an alternative is at the place of what is around it. A reference is to a place
as well, namely to the field of that name in the record around the layout that refers to it.

## Main definitions

* `Slot.path`, `Writing.pathOf`: the path of what is handed down in one step
* `Writing.Reaches`: what is handed down in any number of steps, with its path
* `Writing.RefersTo`, `Writing.Uses`: the places that references are to
* `Layout.NeverRefersTo`: a name that no layout refers to
* `Value.replaceAt`: a value with the part at a path replaced

## Main results

* `Writing.Hands.at?_append`: what is handed down is a part of the value, at its path
* `Writing.Reaches.wrote`: what is reached while encoding is encoded
* `Writing.Reaches.exists_field`: inside a record the path starts with a name that the layout merges
* `Writing.not_uses_of_never`: no used place ends in a name that nothing refers to
-/

namespace BitLayout

/-- The path from a record to what a slot takes from it. -/
def Slot.path : Slot → Path
  | .named name _ => [.field name]
  | _ => []

/-- No layout below, nor this one, refers to a field of the given name. -/
def Layout.NeverRefersTo (layout : Layout) (name : Text) : Prop :=
  layout.Everywhere fun part => part.reference? ≠ some name

instance (layout : Layout) (name : Text) : Decidable (layout.NeverRefersTo name) :=
  have : DecidablePred fun part : Layout => part.reference? ≠ some name := fun _ => inferInstance
  layout.decideEverywhere _

namespace Writing

/-- The path to what is handed down in a step. -/
def pathOf (visit : Writing) (step : Step) : Path :=
  match visit.layout, step with
  | .sequence slots, .slot index => (slots[index]?).elim [] Slot.path
  | _, .item index => [.index (index : Nat)]
  | _, _ => []

/-- A layout with its value comes to another one at a path in the value. -/
inductive Reaches : Writing → Path → Writing → Prop
  | here (visit : Writing) : Reaches visit [] visit
  | step {visit part below : Writing} {step : Step} {path : Path} (hands : visit.Hands step part)
    (rest : Reaches part path below) : Reaches visit (visit.pathOf step ++ path) below

/-- A layout, or an alternative that it chooses, refers to a field of the record around it. -/
inductive RefersTo : Writing → Text → Prop
  | here {visit : Writing} {name : Text} (same : visit.layout.reference? = some name) :
    RefersTo visit name
  | alternative {visit part : Writing} {name : Text} (hands : visit.Hands .alternative part)
    (inside : RefersTo part name) : RefersTo visit name

/-- The place of a field that something refers to: the path to a record and a name in it, to which
one of the slots refers that write from this record. -/
def Uses (visit : Writing) (path : Path) : Prop :=
  ∃ front slots scope record slot layout name,
    visit.Reaches front ⟨.sequence slots, scope, .dict record⟩ ∧ slot ∈ slots ∧
      slot.layout? = some layout ∧ RefersTo ⟨layout, some record, slot.load record⟩ name ∧
      path = front ++ [.field name]

end Writing

/-- The value with the part at a path replaced by another one. -/
def Value.replaceAt (value : Value) (path : Path) (new : Value) : Value :=
  match path, value with
  | [], _ => new
  | .field name :: rest, .dict entries =>
    .dict (Entries.insert entries (.text name)
      (((Entries.field? entries name).getD .null).replaceAt rest new))
  | .index position :: rest, .list items =>
    .list (items.modify position.toNat fun item => item.replaceAt rest new)
  | .index position :: rest, .tuple items =>
    .tuple (items.modify position.toNat fun item => item.replaceAt rest new)
  | _ :: _, value => value
termination_by structural path

namespace Writing

variable {memory : Memory} {visit part below : Writing} {move : Step} {path : Path} {name : Text}

theorem pathOf_slot {slots : List Slot} {scope : Scope} {value : Value} {index : Nat} {slot : Slot}
    (there : slots[index]? = some slot) :
    pathOf ⟨.sequence slots, scope, value⟩ (.slot index) = slot.path := by
  simp [pathOf, there]

/-- What a part uses, the whole uses. -/
theorem Uses.step (hands : visit.Hands move part) (uses : part.Uses path) :
    visit.Uses (visit.pathOf move ++ path) := by
  obtain ⟨front, slots, scope, record, slot, layout, name, reaches, member, same, refers, rfl⟩ := uses
  exact ⟨_, slots, scope, record, slot, layout, name, .step hands reaches, member, same, refers,
    (List.append_assoc _ _ _).symm⟩

/-- The layouts of the parts of a well-formed layout are well-formed. -/
theorem Hands.wellFormed (hands : visit.Hands move part) (wellFormed : visit.layout.WellFormed) :
    part.layout.WellFormed := by
  cases hands with
  | slot there same => exact WellFormedSlots.of_mem wellFormed (List.mem_of_getElem? there) same
  | item => exact wellFormed.2
  | alternative _ chosen => exact wellFormed.alternative (Layout.alternative_of_select chosen)

/-- What is handed down is the part of the value at the path of the step. Only a slot of padding is
given nothing instead. -/
theorem Hands.at?_append (hands : visit.Hands move part) (path : Path) :
    visit.value.at? (visit.pathOf move ++ path) = part.value.at? path ∨
      part.value = .null ∧ (visit.layout.WellFormed → part.layout.isPadding = true) := by
  cases hands with
  | @slot slots scope record index slot layout there same =>
    rw [pathOf_slot there]
    cases slot with
    | named | embedded => exact Or.inl rfl
    | padding =>
      cases same
      exact Or.inr ⟨rfl, fun wellFormed => (WellFormedSlots.cut wellFormed there).2.1.1⟩
    | foreign => cases same
  | @item length element scope value item items index list there =>
    left
    change (value.items?.bind fun items => items[index]?.bind fun item => item.at? path) = _
    rw [list, Option.bind_some, there, Option.bind_some]
  | alternative => exact Or.inl rfl

section Encoding

variable {w w' : BitWriter}

/-- What is handed down while encoding is encoded. -/
theorem Hands.wrote (hands : visit.Hands move part) (wellFormed : visit.layout.WellFormed)
    (wrote : visit.layout.encode memory visit.value visit.scope w = .ok w') :
    part.layout.WellFormed ∧
      ∃ w₁ w₂, part.layout.encode memory part.value part.scope w₁ = .ok w₂ := by
  refine ⟨hands.wellFormed wellFormed, ?_⟩
  cases hands with
  | slot there same =>
    obtain ⟨_, dict, wrote⟩ := Layout.encode_sequence_eq_ok_iff.mp wrote
    cases dict
    obtain ⟨w₁, w₂, -, wrote_slot, -⟩ := (encodeSlots_cut wellFormed there same).mp wrote
    exact ⟨w₁, w₂, wrote_slot⟩
  | item list there =>
    obtain ⟨items, _, list', -, -, wrote⟩ := Layout.encode_array_eq_ok_iff.mp wrote
    rw [list] at list'
    cases list'
    exact forall_of_encodeItems wrote _ (List.mem_of_getElem? there)
  | alternative found chosen =>
    exact ⟨w, w', (Layout.encode_branch_of_select found chosen).mp wrote⟩

/-- What is reached while encoding is encoded. -/
theorem Reaches.wrote (reaches : visit.Reaches path below) (wellFormed : visit.layout.WellFormed)
    (wrote : visit.layout.encode memory visit.value visit.scope w = .ok w') :
    below.layout.WellFormed ∧
      ∃ w₁ w₂, below.layout.encode memory below.value below.scope w₁ = .ok w₂ := by
  induction reaches generalizing w w' with
  | here => exact ⟨wellFormed, w, w', wrote⟩
  | step hands _ ih =>
    obtain ⟨wellFormed_part, w₁, w₂, wrote_part⟩ := hands.wrote wellFormed wrote
    exact ih wellFormed_part wrote_part

/-- What a layout refers to while encoding is a number. -/
theorem RefersTo.resolves (refers : visit.RefersTo name)
    (wrote : visit.layout.encode memory visit.value visit.scope w = .ok w') :
    ∃ n, resolveField visit.scope name = .ok n := by
  induction refers with
  | here same => exact Layout.resolves_of_encode wrote same
  | alternative hands _ ih =>
    cases hands with
    | alternative found chosen =>
      exact ih ((Layout.encode_branch_of_select found chosen).mp wrote)

end Encoding

/-- A value that is no list and no record has no parts, so nothing but itself is reached from it. -/
theorem Reaches.of_scalar (reaches : visit.Reaches path below)
    (noItems : visit.value.items? = none) (noRecord : ∀ record, visit.value ≠ .dict record) :
    path = [] ∧ below.value = visit.value := by
  induction reaches with
  | here => exact ⟨rfl, rfl⟩
  | step hands _ ih =>
    cases hands with
    | slot => exact absurd rfl (noRecord _)
    | item list =>
      rw [noItems] at list
      cases list
    | alternative => exact ih noItems noRecord

theorem Reaches.of_null (reaches : visit.Reaches path below) (null : visit.value = .null) :
    path = [] ∧ below.value = .null := by
  rw [← null]
  exact reaches.of_scalar (by rw [null]; rfl) (by simp [null])

theorem Reaches.of_integer? (reaches : visit.Reaches path below) {n : Integer}
    (number : visit.value.integer? = some n) : path = [] := by
  apply And.left
  apply reaches.of_scalar
  · cases same : visit.value <;> simp_all [Value.integer?, Value.items?]
  · intro record same
    rw [same] at number
    cases number

/-- What is reached by an empty path has the same value, unless it is padding. -/
theorem Reaches.value_eq (reaches : visit.Reaches path below) (here : path = []) :
    below.value = visit.value ∨ below.value = .null := by
  induction reaches with
  | here => exact Or.inl rfl
  | step hands _ ih =>
    obtain ⟨here_step, here_rest⟩ := List.append_eq_nil_iff.mp here
    cases hands with
    | @slot _ _ _ index slot _ there same =>
      rw [pathOf_slot there] at here_step
      cases slot with
      | named => cases here_step
      | embedded => exact ih here_rest
      | padding => exact Or.inr (or_self_iff.mp (ih here_rest))
      | foreign => cases same
    | item list => cases here_step
    | alternative => exact ih here_rest

section Records

variable {record : Entries}

/-- Inside a record the path to a number starts with a name that the layout merges. -/
theorem Reaches.exists_field (reaches : visit.Reaches path below) (dict : visit.value = .dict record)
    {n : Integer} (number : below.value.integer? = some n) :
    ∃ name rest, path = .field name :: rest ∧ name ∈ visit.layout.mergedNames := by
  induction reaches with
  | here =>
    rw [dict] at number
    cases number
  | @step _ _ _ _ path hands rest ih =>
    cases hands with
    | @slot slots _ _ _ slot layout there same =>
      rw [pathOf_slot there]
      have within := Slot.names_subset (List.mem_of_getElem? there)
      cases slot with
      | named name => exact ⟨name, path, rfl, within List.mem_cons_self⟩
      | embedded =>
        cases same
        cases dict
        obtain ⟨name, rest, path_eq, listed⟩ := ih rfl number
        exact ⟨name, rest, path_eq, within listed⟩
      | padding =>
        rw [(rest.of_null rfl).2] at number
        cases number
      | foreign => cases same
    | item list =>
      cases dict
      cases list
    | alternative _ chosen =>
      obtain ⟨name, rest, path_eq, listed⟩ := ih dict number
      exact ⟨name, rest, path_eq, (Layout.alternative_of_select chosen).mergedNames_subset listed⟩

/-- Nothing is reached inside a field that is a number. -/
theorem Reaches.rest_eq_nil (reaches : visit.Reaches path below) (dict : visit.value = .dict record)
    {rest : Path} (inside : path = .field name :: rest) {n : Integer}
    (resolved : resolveField (some record) name = .ok n) : rest = [] := by
  induction reaches with
  | here => cases inside
  | step hands reaches ih =>
    cases hands with
    | @slot slots _ _ _ slot layout there same =>
      cases dict
      rw [pathOf_slot there] at inside
      cases slot with
      | named other =>
        cases inside
        obtain ⟨_, value, same_record, found, number⟩ := resolveField_eq_ok_iff.mp resolved
        cases same_record
        apply reaches.of_integer? (n := n)
        rw [Slot.load, found]
        exact number
      | embedded => exact ih rfl inside
      | padding =>
        rw [(reaches.of_null rfl).1] at inside
        cases inside
      | foreign => cases same
    | item list => cases inside
    | alternative => exact ih dict inside

/-- If the place of a number is not used while encoding, no reference is to the field around it
either, since it would find a list or a record there. -/
theorem Reaches.not_uses_field {rest : Path} (reaches : visit.Reaches (.field name :: rest) below)
    (unused : ¬visit.Uses (.field name :: rest)) (wellFormed : visit.layout.WellFormed)
    {w w' : BitWriter} (wrote : visit.layout.encode memory visit.value visit.scope w = .ok w') :
    ¬visit.Uses [.field name] := by
  intro uses
  obtain ⟨front, slots, scope, record, slot, layout, other, around, member, same, refers, path_eq⟩ :=
    id uses
  have cut : [] ++ [PathElement.field name] = front ++ [.field other] := path_eq
  obtain ⟨rfl, last⟩ := List.append_inj' cut rfl
  cases last
  -- The record with the reference is the one at hand.
  have dict := (around.value_eq rfl).resolve_right (by simp)
  obtain ⟨wellFormed_slots, w₁, w₂, wrote_slots⟩ := around.wrote wellFormed wrote
  obtain ⟨index, there⟩ := List.mem_iff_getElem?.mp member
  have hands : Hands ⟨.sequence slots, scope, .dict record⟩ (.slot index)
      ⟨layout, some record, slot.load record⟩ := .slot there same
  obtain ⟨-, w₃, w₄, wrote_slot⟩ := hands.wrote wellFormed_slots wrote_slots
  obtain ⟨n, resolved⟩ := refers.resolves wrote_slot
  -- The field is referred to, so it is a number, and the place is the field itself.
  obtain rfl := reaches.rest_eq_nil dict.symm rfl resolved
  exact unused uses

end Records

section Everywhere

variable {P : Layout → Prop}

theorem Hands.everywhere (hands : visit.Hands move part) (everywhere : visit.layout.Everywhere P) :
    part.layout.Everywhere P := by
  cases hands with
  | slot there same => exact everywhere.2.of_mem (List.mem_of_getElem? there) same
  | item => exact everywhere.2
  | alternative _ chosen => exact everywhere.alternative (Layout.alternative_of_select chosen)

theorem Reaches.everywhere (reaches : visit.Reaches path below)
    (everywhere : visit.layout.Everywhere P) : below.layout.Everywhere P := by
  induction reaches with
  | here => exact everywhere
  | step hands _ ih => exact ih (hands.everywhere everywhere)

/-- What never refers to a name does not refer to it in any choice. -/
theorem not_refersTo_of_never (never : visit.layout.NeverRefersTo name) : ¬visit.RefersTo name := by
  intro refers
  induction refers with
  | here same => exact never.here same
  | alternative hands _ ih => exact ih (hands.everywhere never)

/-- No place that ends in a name is used if nothing refers to this name. -/
theorem not_uses_of_never {layout : Layout} {scope : Scope} {value : Value}
    (never : layout.NeverRefersTo name) (front : Path) :
    ¬Uses ⟨layout, scope, value⟩ (front ++ [.field name]) := by
  rintro ⟨front', slots, scope, record, slot, layout, other, reaches, member, same, refers, path_eq⟩
  obtain ⟨-, last⟩ := List.append_inj' path_eq rfl
  cases last
  have below := (reaches.everywhere never).2.of_mem member same
  exact absurd refers (not_refersTo_of_never below)

end Everywhere

end Writing

end BitLayout
