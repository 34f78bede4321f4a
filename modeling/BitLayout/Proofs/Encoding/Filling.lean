import BitLayout.Proofs.Encoding.Success
import BitLayout.Proofs.Scope
import Mathlib.Data.List.Forall2

/-!
# Encoding records with more fields

A layout does not see the fields that it does not name. Whatever can be encoded is encoded to the
same bits after fields were added to the records in it, at any depth, since a slot whose field was
missing has written without looking at it, and a reference that was resolved has found its field.

## Main definitions

* `Value.Fills`, `Entries.Fills`: a value with more fields in its records, at any depth

## Main results

* `Layout.encode_of_fills`: what can be encoded is encoded to the same bits with more fields
-/

namespace BitLayout

/-- The same value, except that its records, those inside lists and records included, may have got
more fields and other values in place of nothing. -/
inductive Value.Fills : Value → Value → Prop
  | nothing (value' : Value) : Value.Fills value' .null
  | same (value : Value) : Value.Fills value value
  | list {items' items : List Value} (each : List.Forall₂ Value.Fills items' items) :
    Value.Fills (.list items') (.list items)
  | dict {entries' entries : Entries}
    (each : ∀ name, Value.Fills ((entries'.field? name).getD .null)
      ((entries.field? name).getD .null)) :
    Value.Fills (.dict entries') (.dict entries)

/-- The fields of a record, with more fields around them and inside their values. -/
def Entries.Fills (entries' entries : Entries) : Prop :=
  ∀ name, Value.Fills ((entries'.field? name).getD .null) ((entries.field? name).getD .null)

namespace Value.Fills

variable {value value' : Value}

theorem dict_inv {entries : Entries} (fills : value'.Fills (.dict entries)) :
    ∃ entries' : Entries, value' = .dict entries' ∧ entries'.Fills entries := by
  cases fills with
  | same => exact ⟨entries, rfl, fun _ => .same _⟩
  | dict each => exact ⟨_, rfl, each⟩

theorem items?_inv {items : List Value} (fills : value'.Fills value)
    (listed : value.items? = some items) :
    ∃ items', value'.items? = some items' ∧ List.Forall₂ Value.Fills items' items := by
  cases fills with
  | nothing | dict => cases listed
  | same => exact ⟨items, listed, List.forall₂_same.mpr fun item _ => .same item⟩
  | list each =>
    cases listed
    exact ⟨_, rfl, each⟩

/-- Only nothing, lists and records are filled with anything. -/
theorem eq_of_integer? {n : Integer} (fills : value'.Fills value)
    (number : value.integer? = some n) : value' = value := by
  cases fills with
  | same => rfl
  | nothing | list | dict => cases number

end Value.Fills

section Records

variable {record record' : Entries}

/-- A reference finds the number that it has found before. -/
theorem Scope.supports_of_fills (fills : record'.Fills record) {known : Set Text} :
    Scope.Supports (some record') known (some record) := by
  intro name _ n resolved
  obtain ⟨_, value, same_record, found, number⟩ := resolveField_eq_ok_iff.mp resolved
  cases same_record
  have filled := fills name
  rw [found, Option.getD_some] at filled
  have same := filled.eq_of_integer? number
  refine ⟨n, resolveField_eq_ok_iff.mpr ⟨record', value, rfl, ?_, number⟩, rfl⟩
  -- A field that is not there would count as nothing, which is no number.
  cases found' : record'.field? name with
  | none =>
    rw [found', Option.getD_none] at same
    rw [← same] at number
    cases number
  | some value' => rw [← same, found', Option.getD_some]

theorem Slot.fills_load (fills : record'.Fills record) (slot : Slot) :
    (slot.load record').Fills (slot.load record) := by
  cases slot with
  | named name layout => exact fills name
  | embedded layout => exact .dict fills
  | padding | foreign => exact .same _

end Records

/-- What this layout encodes, it encodes to the same bits after more fields have come in. -/
def Layout.EncodesFilled (memory : Memory) (layout : Layout) : Prop :=
  ∀ {scope scope' : Scope} {value value' : Value} {w w' : BitWriter},
    value'.Fills value → scope'.Supports Set.univ scope →
    layout.encode memory value scope w = .ok w' → layout.encode memory value' scope' w = .ok w'

section Steps

variable {memory : Memory} {w w' : BitWriter}

theorem encodeItems_of_fills {element : Layout} (encodesFilled : element.EncodesFilled memory)
    {index : Nat} {items items' : List Value} (each : List.Forall₂ Value.Fills items' items)
    (wrote : encodeItems (fun item w => element.encode memory item none w) index items w = .ok w') :
    encodeItems (fun item w => element.encode memory item none w) index items' w = .ok w' := by
  induction each generalizing index w with
  | nil => exact wrote
  | cons fills _ ih =>
    obtain ⟨w₁, wrote_first, wrote_others⟩ := encodeItems_cons_eq_ok_iff.mp wrote
    apply encodeItems_cons_eq_ok_iff.mpr
    exact ⟨w₁, encodesFilled fills (Scope.supports_none none _) wrote_first, ih wrote_others⟩

theorem writeSlice_of_supports {kind : Layout.Kind} {length : Length} {raw : List UInt8}
    {scope scope' : Scope} (supports : scope'.Supports Set.univ scope)
    (wrote : writeSlice kind length raw scope w = .ok w') :
    writeSlice kind length raw scope' w = .ok w' := by
  obtain ⟨⟨count, resolved⟩, wrote⟩ := writeSlice_eq_ok_iff.mp wrote
  obtain ⟨count', resolved', -⟩ := supports.resolve length.refersTo_univ resolved
  exact writeSlice_eq_ok_iff.mpr ⟨⟨count', resolved'⟩, wrote⟩

end Steps

/-- A well-formed layout writes the same bits after more fields have come in. -/
theorem Layout.encode_of_fills {memory : Memory} {layout : Layout} (wellFormed : layout.WellFormed) :
    layout.EncodesFilled memory := by
  induction layout using Layout.induction with
  | abstract => exact wellFormed.elim
  | sequence slots ih =>
    intro scope scope' value value' w w' fills _ wrote
    obtain ⟨record, rfl, wrote⟩ := encode_sequence_eq_ok_iff.mp wrote
    obtain ⟨record', rfl, each⟩ := fills.dict_inv
    refine encode_sequence_eq_ok_iff.mpr ⟨record', rfl, encodeSlots_of_forall wellFormed ?_ wrote⟩
    intro slot member layout same w w' wrote_slot
    exact ih slot member layout same (wellFormed.of_mem member same) (slot.fills_load each)
      (Scope.supports_of_fills each) wrote_slot
  | array length element ih =>
    intro scope scope' value value' w w' fills supports wrote
    obtain ⟨items, count, listed, resolved, same, wrote⟩ := encode_array_eq_ok_iff.mp wrote
    obtain ⟨items', listed', each⟩ := fills.items?_inv listed
    obtain ⟨count', resolved', same'⟩ := supports.resolve length.refersTo_univ resolved
    -- Filling keeps the number of items, so the count is still right.
    have count_eq : count'.toInt = items'.length := by rw [same', same, each.length_eq]
    apply encode_array_eq_ok_iff.mpr
    exact ⟨items', count', listed', resolved', count_eq,
      encodeItems_of_fills (ih wellFormed.2) each wrote⟩
  | branch discriminant cases otherwise ih =>
    intro scope scope' value value' w w' fills supports wrote
    obtain ⟨key, layout, found, chosen, wrote⟩ := encode_branch_eq_ok_iff.mp wrote
    obtain ⟨key', found', chosen'⟩ := supports.select trivial found chosen
    have alternative := alternative_of_select chosen
    apply encode_branch_eq_ok_iff.mpr
    exact ⟨key', layout, found', chosen',
      ih layout alternative (wellFormed.alternative alternative) fills supports wrote⟩
  | bitField width =>
    intro scope scope' value value' w w' fills _ wrote
    obtain ⟨n, number, wrote⟩ := encode_bitField_eq_ok_iff.mp wrote
    rw [fills.eq_of_integer? number]
    exact encode_bitField_eq_ok_iff.mpr ⟨n, number, wrote⟩
  | wideField width =>
    intro scope scope' value value' w w' fills _ wrote
    rw [encode_wideField_eq_ok_iff] at wrote ⊢
    obtain ⟨n, number, wrote⟩ := encode_bitField_eq_ok_iff.mp wrote
    rw [fills.eq_of_integer? number]
    exact encode_bitField_eq_ok_iff.mpr ⟨n, number, wrote⟩
  | byteSlice length =>
    intro scope scope' value value' w w' fills supports wrote
    obtain ⟨holder, raw, rfl, wrote⟩ := encode_byteSlice_eq_ok_iff.mp wrote
    cases fills
    apply encode_byteSlice_eq_ok_iff.mpr
    exact ⟨holder, raw, rfl, writeSlice_of_supports supports wrote⟩
  | text length encoding =>
    intro scope scope' value value' w w' fills supports wrote
    obtain ⟨t, raw, rfl, spelled, wrote⟩ := encode_text_eq_ok_iff.mp wrote
    cases fills
    apply encode_text_eq_ok_iff.mpr
    exact ⟨t, raw, rfl, spelled, writeSlice_of_supports supports wrote⟩
  | padding width =>
    intro scope scope' value value' w w' _ _ wrote
    rw [encode_padding_eq_ok_iff] at wrote ⊢
    exact wrote

end BitLayout
