import BitLayout.Proofs.Conformance
import BitLayout.Proofs.Encoding.Success
import BitLayout.Proofs.Record.Run
import BitLayout.Proofs.Layout.Names

/-!
# Models that mirror their layout

The encoder reduces integers to their width and does not compare the length of bytes with their
layout, so it is the bounds of the fields that keep it from losing anything. A model mirrors a layout
if its fields are bounded exactly as the slots are. What its records hold then fits the layout as soon
as it can be encoded at all; only the lengths of lists are left to the encoder to check.

## Main definitions

* `FieldType.Mirrors`, `FieldsMirror`: types and fields that are bounded as a layout is
* `Entries.Provides`: a record with a value for each of some fields

## Main results

* `FieldsMirror.names_eq`, `FieldsMirror.nodup_names`: the names of the fields
* `FieldType.Mirrors.holds_of_admits`: what is enforced is dumped to values within the bounds
* `FieldType.Mirrors.fits_of_encode`: what is held and can be encoded fits the layout
-/

namespace BitLayout

mutual

/-- A type of the values that a layout reads and writes without loss. -/
inductive FieldType.Mirrors : FieldType → Layout → Prop
  | bitField {width : Integer} : (FieldType.unsigned width.toNat).Mirrors (.bitField width)
  | wideField {width : Integer} : (FieldType.unsigned width.toNat).Mirrors (.wideField width)
  | byteSlice {count : Integer} :
    (FieldType.fixedBytes count.toNat).Mirrors (.byteSlice (.literal count))
  | array {item : FieldType} {length : Length} {element : Layout} (each : item.Mirrors element) :
    (FieldType.list item).Mirrors (.array length element)
  /-- The fields of a model may be declared in any order. -/
  | sequence {name : Text} {fields stored : List Field} {layout : Option Layout}
    {slots : List Slot} (stores : FieldsMirror stored slots) (same : fields.Perm stored) :
    (FieldType.record (.mk name fields layout)).Mirrors (.sequence slots)

/-- One field without a default for each value that slots store into their record. -/
inductive FieldsMirror : List Field → List Slot → Prop
  | nil : FieldsMirror [] []
  | named {name : Text} {type : FieldType} {layout : Layout} {fields : List Field}
    {slots : List Slot} (content : type.Mirrors layout) (later : FieldsMirror fields slots) :
    FieldsMirror (.mk name type none :: fields) (.named name layout :: slots)
  /-- The fields of an embedded sequence are those of the record around it. -/
  | embedded {inside fields : List Field} {inner slots : List Slot}
    (merged : FieldsMirror inside inner) (later : FieldsMirror fields slots) :
    FieldsMirror (inside ++ fields) (.embedded (.sequence inner) :: slots)
  | padding {layout : Layout} {label : Option Text} {fields : List Field} {slots : List Slot}
    (later : FieldsMirror fields slots) : FieldsMirror fields (.padding layout label :: slots)

end

section Names

theorem FieldsMirror.names_eq {fields : List Field} {slots : List Slot}
    (mirror : FieldsMirror fields slots) : fields.map Field.name = namesOfSlots slots := by
  match mirror with
  | .nil => rfl
  | .named _ later =>
    rw [List.map_cons, later.names_eq]
    rfl
  | .embedded merged later =>
    rw [List.map_append, merged.names_eq, later.names_eq]
    rfl
  | .padding later => exact later.names_eq

/-- There are no choices in such slots, so every name comes once. -/
theorem FieldsMirror.nodup_names {fields : List Field} {slots : List Slot}
    (mirror : FieldsMirror fields slots)
    (distinct : (Layout.sequence slots).DistinctNames) : (fields.map Field.name).Nodup := by
  match mirror with
  | .nil => exact List.nodup_nil
  | .named _ later =>
    refine List.nodup_cons.mpr ⟨?_, later.nodup_names distinct.rest⟩
    rw [later.names_eq]
    exact distinct.1.1 _ (List.mem_singleton.mpr rfl)
  | .embedded merged later =>
    rw [List.map_append]
    refine List.nodup_append.mpr
      ⟨merged.nodup_names distinct.2.1, later.nodup_names distinct.rest, ?_⟩
    rintro name inside _ behind rfl
    rw [merged.names_eq] at inside
    rw [later.names_eq] at behind
    exact distinct.1.1 name inside behind
  | .padding later => exact later.nodup_names distinct.rest

/-- No field of a mirroring model has a default. -/
theorem FieldsMirror.required {fields : List Field} {slots : List Slot}
    (mirror : FieldsMirror fields slots) : ∀ field ∈ fields, field.default = none := by
  match mirror with
  | .nil => exact fun _ member => nomatch member
  | .named _ later => exact List.forall_mem_cons.mpr ⟨rfl, later.required⟩
  | .embedded merged later => exact List.forall_mem_append.mpr ⟨merged.required, later.required⟩
  | .padding later => exact later.required

end Names

section Dumping

variable {library : RecordLibrary} {s : library.State}

mutual

/-- What a field of a mirroring type may hold is dumped to a value within its bounds. -/
theorem FieldType.Mirrors.holds_of_admits {type : FieldType} {layout : Layout}
    (mirror : type.Mirrors layout) (distinct : layout.DistinctNames) (enforces : library.Enforces)
    (reached : library.Reached s) (sound : library.Sound s)
    {object : Object library.Record}
    (admits : library.Admits s type object) : type.Holds (object.value (library.dump s)) := by
  match mirror with
  | .bitField | .wideField =>
    cases admits with
    | unsigned least less => exact .unsigned least less
  | .byteSlice =>
    cases admits with
    | fixedBytes same => exact .fixedBytes same
  | .array each =>
    cases admits with
    | list admitted =>
      rw [Object.value, Object.values_eq]
      refine .list (List.forall_mem_map.mpr fun object member => ?_)
      exact each.holds_of_admits distinct.2 enforces reached sound (admitted object member)
  | .sequence stores same =>
    cases admits with
    | @record _ record there =>
      have enforced := sound there
      have required := stores.required
      have all := fun field member => enforced field member (required field (same.mem_iff.mp member))
      rw [Object.value, enforces.dump_eq reached there all]
      refine .record ((same.map Field.name).nodup_iff.mpr (stores.nodup_names distinct)) ?_ ?_
      · rw [Entries.keys, List.map_map]
        rfl
      · intro field member value found
        let dumped := fun name => (library.held? s record name).elim .null (·.value (library.dump s))
        obtain rfl : dumped field.name = value :=
          Option.some.inj ((Entries.field?_map member).symm.trans found)
        obtain ⟨object, held, admits⟩ := all field member
        rw [show dumped field.name = object.value (library.dump s) by simp only [dumped, held]; rfl]
        exact stores.holds_of_admits distinct enforces reached sound (same.mem_iff.mp member) admits

theorem FieldsMirror.holds_of_admits {fields : List Field} {slots : List Slot}
    (mirror : FieldsMirror fields slots) (distinct : (Layout.sequence slots).DistinctNames)
    (enforces : library.Enforces) (reached : library.Reached s) (sound : library.Sound s)
    {field : Field} (member : field ∈ fields) {object : Object library.Record} (admits : library.Admits s field.type object) :
    field.type.Holds (object.value (library.dump s)) := by
  match mirror with
  | .nil => cases member
  | .named content later =>
    rcases List.mem_cons.mp member with rfl | member
    · exact content.holds_of_admits distinct.2.1 enforces reached sound admits
    · exact later.holds_of_admits distinct.rest enforces reached sound member admits
  | .embedded merged later =>
    rcases List.mem_append.mp member with member | member
    · exact merged.holds_of_admits distinct.2.1 enforces reached sound member admits
    · exact later.holds_of_admits distinct.rest enforces reached sound member admits
  | .padding later => exact later.holds_of_admits distinct.rest enforces reached sound member admits

end

end Dumping

section Fitting

variable {memory : Memory}

/-- A record has a value for each of the given fields. -/
def Entries.Provides (record : Entries) (fields : List Field) : Prop :=
  ∀ field ∈ fields, ∃ value, record.field? field.name = some value ∧ field.type.Holds value

mutual

/-- What a mirroring type holds and the encoder accepts fits the layout. -/
theorem FieldType.Mirrors.fits_of_encode {type : FieldType} {layout : Layout}
    (mirror : type.Mirrors layout) (wellFormed : layout.WellFormed)
    (distinct : layout.DistinctNames) {value : Value} (holds : type.Holds value) {scope : Scope}
    {w w' : BitWriter} (wrote : layout.encode memory value scope w = .ok w') :
    layout.Fits scope value := by
  match mirror with
  | .bitField =>
    cases holds with
    | @unsigned _ n least less => exact .bitField ⟨.number n, rfl, least, less⟩
  | .wideField =>
    cases holds with
    | @unsigned _ n least less => exact .wideField ⟨.number n, rfl, least, less⟩
  | .byteSlice =>
    cases holds with
    | fixedBytes same =>
      refine .byteSlice rfl ?_
      rw [same, Integer.toNat, Int.toNat_of_nonneg wellFormed.le_toInt]
  | .array each =>
    cases holds with
    | list holds =>
      obtain ⟨items, count, listed, resolved, same, wrote⟩ := Layout.encode_array_eq_ok_iff.mp wrote
      cases listed
      refine .array resolved same fun item member => ?_
      obtain ⟨w₁, w₂, wrote_item⟩ := forall_of_encodeItems wrote item member
      exact each.fits_of_encode wellFormed.2 distinct.2 (holds item member) wrote_item
  | .sequence stores same =>
    cases holds with
    | @record _ _ _ entries _ names each =>
      obtain ⟨record, dict, wrote⟩ := Layout.encode_sequence_eq_ok_iff.mp wrote
      cases dict
      refine .sequence (stores.fit_of_encodeSlots wellFormed distinct (fun field member => ?_) wrote) ?_
      · have declared := same.mem_iff.mpr member
        obtain ⟨value, found⟩ := Entries.exists_field?_of_names names declared
        exact ⟨value, found, each field declared value found⟩
      · rw [names, List.map_map]
        exact same.map _

/-- Fields whose values the encoder accepts fit their slots. -/
theorem FieldsMirror.fit_of_encodeSlots {fields : List Field} {slots : List Slot}
    (mirror : FieldsMirror fields slots) (wellFormed : WellFormedSlots slots)
    (distinct : (Layout.sequence slots).DistinctNames) {record : Entries}
    (provides : record.Provides fields) {w w' : BitWriter}
    (wrote : encodeSlots memory slots record w = .ok w') :
    SlotsFit slots record (fields.map Field.name) := by
  match mirror with
  | .nil => exact .nil
  | .named content later =>
    obtain ⟨layout, w₁, same, wrote_first, wrote_rest⟩ :=
      (encodeSlots_cons_eq_ok_iff wellFormed.1).mp wrote
    cases same
    obtain ⟨⟨value, found, holds⟩, provides_rest⟩ := List.forall_mem_cons.mp provides
    rw [Field.name] at found
    rw [Slot.load, found] at wrote_first
    exact .cons (.named found (content.fits_of_encode wellFormed.1.2.2 distinct.2.1 holds
      wrote_first)) (later.fit_of_encodeSlots wellFormed.2 distinct.rest provides_rest wrote_rest)
  | .embedded merged later =>
    obtain ⟨layout, w₁, same, wrote_first, wrote_rest⟩ :=
      (encodeSlots_cons_eq_ok_iff wellFormed.1).mp wrote
    cases same
    obtain ⟨inside, dict, wrote_inside⟩ := Layout.encode_sequence_eq_ok_iff.mp wrote_first
    cases dict
    obtain ⟨provides_inside, provides_rest⟩ := List.forall_mem_append.mp provides
    rw [List.map_append]
    exact .cons (.embedded (.sequence (merged.fit_of_encodeSlots wellFormed.1.2 distinct.2.1
      provides_inside wrote_inside)))
      (later.fit_of_encodeSlots wellFormed.2 distinct.rest provides_rest wrote_rest)
  | .padding later =>
    obtain ⟨layout, w₁, -, -, wrote_rest⟩ :=
      (encodeSlots_cons_eq_ok_iff wellFormed.1).mp wrote
    exact .cons .padding
      (later.fit_of_encodeSlots wellFormed.2 distinct.rest provides wrote_rest)

end

end Fitting

end BitLayout
