import BitLayout.Proofs.Record.Library
import BitLayout.Proofs.Record.Validation
import BitLayout.Record.Objects

/-!
# Records as objects keep what is expected

The library that converts what it is given keeps records one after another. Making a record adds the
records in it and itself behind those that there are, and changing one adds those in its new field. So
records stay what they are, and it is enough to know of every record that its fields hold what they
may.

## Main definitions

* `Heap.Conforms`, `Heap.Valid`: fields that hold what they may
* `FieldType.KeptAs`: what becomes of a value that is put into records

## Main results

* `FieldType.keptAs_of_keep`, `FieldType.exists_keep_of_holds`: keeping a value
* `FieldType.validate_of_keeps`, `FieldType.keeps_of_validate`: validation converts nothing that is
  taken as it stands
* `RecordLibrary.enforces_converting`, `RecordLibrary.takesTyped_converting`
-/

namespace BitLayout

namespace Heap

/-- What a field of a type may hold. -/
inductive Conforms (heap : Heap) : FieldType → Object Nat → Prop
  | leaf {type : FieldType} {value : Value} (leaf : type.IsLeaf)
    (admits : type.admitsPlain value = true) : Conforms heap type (.plain value)
  | list {item : FieldType} {objects : List (Object Nat)}
    (each : ∀ object ∈ objects, Conforms heap item object) :
    Conforms heap (.list item) (.list objects)
  | nothing {content : FieldType} : Conforms heap (.optional content) (.plain .null)
  | optional {content : FieldType} {object : Object Nat} (inside : Conforms heap content object) :
    Conforms heap (.optional content) object
  | record {model : Model} {index : Nat}
    (there : heap[index]?.map RecordObject.model = some model) :
    Conforms heap (.record model) (.ref index)

/-- A field holds what it may, or a plain value in place of what was not given. -/
def Filled (heap : Heap) (held : List (Text × Object Nat)) (field : Field) : Prop :=
  ∃ object, held.lookup field.name = some object ∧
    (heap.Conforms field.type object ∨ field.default ≠ none ∧ ∃ value, object = .plain value)

/-- The fields of every record have names of their own and are filled. -/
def Valid (heap : Heap) : Prop :=
  ∀ record ∈ heap, (record.model.fields.map Field.name).Nodup ∧
    ∀ field ∈ record.model.fields, heap.Filled record.held field

/-- Records stay records of their models. -/
def Stays (heap heap' : Heap) : Prop :=
  ∀ ⦃index : Nat⦄ ⦃model : Model⦄, heap[index]?.map RecordObject.model = some model →
    heap'[index]?.map RecordObject.model = some model

variable {heap heap' : Heap}

theorem stays_of_grows (grows : heap <+: heap') : heap.Stays heap' := by
  obtain ⟨added, rfl⟩ := grows
  intro index model there
  obtain ⟨record, at_index, rfl⟩ := Option.map_eq_some_iff.mp there
  obtain ⟨bound, -⟩ := List.getElem?_eq_some_iff.mp at_index
  rw [List.getElem?_append_left bound, at_index, Option.map_some]

theorem Conforms.mono (stays : heap.Stays heap') {type : FieldType} {object : Object Nat}
    (conforms : heap.Conforms type object) : heap'.Conforms type object := by
  induction conforms with
  | leaf leaf admits => exact .leaf leaf admits
  | list _ each => exact .list each
  | nothing => exact .nothing
  | optional _ inside => exact .optional inside
  | record there => exact .record (stays there)

theorem Filled.mono (stays : heap.Stays heap') {held : List (Text × Object Nat)} {field : Field}
    (filled : heap.Filled held field) : heap'.Filled held field := by
  obtain ⟨object, found, holds⟩ := filled
  exact ⟨object, found, holds.imp_left (·.mono stays)⟩

/-- A new record behind valid ones. -/
theorem Valid.append (valid : heap.Valid) {record : RecordObject}
    (distinct : (record.model.fields.map Field.name).Nodup)
    (filled : ∀ field ∈ record.model.fields, heap.Filled record.held field) :
    Heap.Valid (heap ++ [record]) := by
  have stays : heap.Stays (heap ++ [record]) := stays_of_grows (List.prefix_append heap [record])
  intro other member
  rcases List.mem_append.mp member with old | new
  · obtain ⟨distinct, filled⟩ := valid other old
    exact ⟨distinct, fun field declared => (filled field declared).mono stays⟩
  · obtain rfl := List.mem_singleton.mp new
    exact ⟨distinct, fun field declared => (filled field declared).mono stays⟩

end Heap

section Dumping

variable {heap : Heap}

/-- A plain value is dumped as it is. -/
theorem FieldType.dump_plain (type : FieldType) (value : Value) :
    type.dump heap (.plain value) = value := by
  match type with
  | .optional content =>
    rw [FieldType.dump]
    exact content.dump_plain value
  | .int | .unsigned _ | .bytes | .fixedBytes _ | .text | .list _ | .record _ | .dict | .any => rfl

theorem dumpFields_eq_map (fields : List Field) (held : List (Text × Object Nat)) :
    dumpFields fields heap held = fields.map fun field =>
      (.text field.name, (held.lookup field.name).elim .null fun object =>
        field.type.dump heap object) := by
  induction fields with
  | nil => rfl
  | cons field rest ih =>
    obtain ⟨name, type, default⟩ := field
    exact congrArg (_ :: ·) ih

theorem Model.dump_eq_map (model : Model) (held : List (Text × Object Nat)) :
    model.dump heap held = model.fields.map fun field =>
      (.text field.name, (held.lookup field.name).elim .null fun object =>
        field.type.dump heap object) := by
  match model with
  | .mk _ fields _ => exact dumpFields_eq_map fields held

/-- The values of what conforms are those of the records that it refers to. -/
theorem Heap.Conforms.dump_eq {type : FieldType} {object : Object Nat}
    (conforms : heap.Conforms type object) : type.dump heap object = object.value heap.dump := by
  induction conforms with
  | leaf => exact FieldType.dump_plain _ _
  | @list item objects _ each =>
    rw [FieldType.dump, Object.value, Object.values_eq]
    exact congrArg Value.list (List.map_congr_left each)
  | nothing => exact FieldType.dump_plain _ _
  | optional _ inside =>
    rw [FieldType.dump]
    exact inside
  | @record model index there =>
    obtain ⟨record, at_index, rfl⟩ := Option.map_eq_some_iff.mp there
    rw [FieldType.dump, Object.value, Heap.dump, at_index]
    rfl

end Dumping

section Keeping

/-- What becomes of a value that is put into records: more records, and an object that conforms and
is dumped to the value again, also when there are even more records. -/
structure FieldType.KeptAs (type : FieldType) (value : Value) (object : Object Nat)
    (heap heap' : Heap) : Prop where
  grows : heap <+: heap'
  valid : heap.Valid → heap'.Valid
  conforms : heap'.Conforms type object
  dump_eq : ∀ later, heap' <+: later → type.dump later object = value

theorem keptAs_of_keepItems {item : FieldType}
    (each : ∀ {value heap object heap'}, item.keep value heap = some (object, heap') →
      item.KeptAs value object heap heap')
    {values : List Value} {heap heap' : Heap} {objects : List (Object Nat)}
    (kept : keepItems (fun value heap => item.keep value heap) values heap =
      some (objects, heap')) :
    item.list.KeptAs (.list values) (.list objects) heap heap' := by
  -- The items are kept one after another, and each has to last while the others are added.
  suffices heap <+: heap' ∧ (heap.Valid → heap'.Valid) ∧
      (∀ object ∈ objects, heap'.Conforms item object) ∧
      ∀ later, heap' <+: later → objects.map (fun object => item.dump later object) = values by
    obtain ⟨grows, valid, conforms, dumped⟩ := this
    refine ⟨grows, valid, .list conforms, fun later grows => ?_⟩
    rw [FieldType.dump, dumped later grows]
  induction values generalizing heap objects with
  | nil =>
    cases kept
    exact ⟨List.prefix_rfl, id, nofun, fun _ _ => rfl⟩
  | cons first rest ih =>
    simp only [keepItems, Option.bind_eq_bind, Option.bind_eq_some_iff, Option.some.injEq,
      Prod.exists, Prod.mk.injEq] at kept
    obtain ⟨object, heap₁, kept_first, others, _, kept_rest, rfl, rfl⟩ := kept
    have head := each kept_first
    obtain ⟨grows, valid, conforms, dumped⟩ := ih kept_rest
    refine ⟨head.grows.trans grows, fun before => valid (head.valid before),
      List.forall_mem_cons.mpr ⟨head.conforms.mono (Heap.stays_of_grows grows), conforms⟩,
      fun later more => ?_⟩
    rw [List.map_cons, head.dump_eq later (grows.trans more), dumped later more]

/-- The first field is kept like a value of its type, or as it is if it has a default. -/
theorem exists_of_keepFields_cons {name : Text} {type : FieldType} {default : Option Value}
    {rest : List Field} {key value : Value} {entries : Entries} {heap heap' : Heap}
    {held : List (Text × Object Nat)}
    (kept : keepFields (.mk name type default :: rest) ((key, value) :: entries) heap =
      some (held, heap')) :
    ∃ object heap₁ held', key = .text name ∧ name ∉ rest.map Field.name ∧
      (type.keep value heap = some (object, heap₁) ∨
        default ≠ none ∧ object = .plain value ∧ heap₁ = heap) ∧
      keepFields rest entries heap₁ = some (held', heap') ∧ held = (name, object) :: held' := by
  rw [keepFields.eq_def] at kept
  cases key with
  | text name' =>
    simp only [ne_eq, Bool.or_eq_true, decide_eq_true_eq, List.contains_iff_mem] at kept
    split_ifs at kept with unfit
    obtain ⟨same, fresh⟩ := not_or.mp unfit
    obtain ⟨⟨object, heap₁⟩, first, kept⟩ := Option.bind_eq_some_iff.mp kept
    obtain ⟨⟨held', _⟩, kept_rest, same_held⟩ := Option.bind_eq_some_iff.mp kept
    cases same_held
    refine ⟨object, heap₁, held', by rw [not_not.mp same], fresh, ?_, kept_rest, rfl⟩
    rcases Option.or_eq_some_iff.mp first with first | ⟨-, plain⟩
    · exact .inl first
    · obtain ⟨_, rfl, same⟩ := Option.map_eq_some_iff.mp plain
      cases same
      exact .inr ⟨nofun, rfl, rfl⟩
  | _ => cases kept

mutual

/-- A value that is kept conforms and can be dumped. -/
theorem FieldType.keptAs_of_keep {type : FieldType} {value : Value} {heap heap' : Heap}
    {object : Object Nat} (kept : type.keep value heap = some (object, heap')) :
    type.KeptAs value object heap heap' := by
  match type with
  | .list item =>
    cases value with
    | list values =>
      obtain ⟨⟨objects, _⟩, kept_items, same⟩ := Option.bind_eq_some_iff.mp kept
      cases same
      exact keptAs_of_keepItems (fun kept => item.keptAs_of_keep kept) kept_items
    | _ => cases kept
  | .optional content =>
    by_cases nothing : value = .null
    · subst nothing
      cases kept
      exact ⟨List.prefix_rfl, id, .nothing, fun _ _ => FieldType.dump_plain _ _⟩
    · have inside : content.keep value heap = some (object, heap') := by
        cases value with
        | null => exact absurd rfl nothing
        | _ => exact kept
      obtain ⟨grows, valid, conforms, dumped⟩ := content.keptAs_of_keep inside
      refine ⟨grows, valid, .optional conforms, fun later more => ?_⟩
      rw [FieldType.dump]
      exact dumped later more
  | .record model =>
    cases value with
    | dict entries =>
      obtain ⟨⟨index, _⟩, kept_record, same⟩ := Option.bind_eq_some_iff.mp kept
      cases same
      obtain ⟨grows, valid, record, there, rfl, dumped⟩ := Model.grows_of_keep kept_record
      refine ⟨grows, valid, .record (congrArg _ there), fun later more => ?_⟩
      obtain ⟨added, rfl⟩ := more
      obtain ⟨bound, -⟩ := List.getElem?_eq_some_iff.mp there
      rw [FieldType.dump, List.getElem?_append_left bound, there]
      exact congrArg Value.dict (dumped _ (List.prefix_append _ _))
    | _ => cases kept
  | .int | .unsigned _ | .bytes | .fixedBytes _ | .text | .dict | .any =>
    rw [FieldType.keep.eq_def] at kept
    obtain ⟨admits, same⟩ := Option.ite_none_right_eq_some.mp kept
    cases same
    exact ⟨List.prefix_rfl, id, .leaf trivial admits, fun _ _ => rfl⟩

theorem Model.grows_of_keep {model : Model} {entries : Entries} {heap heap' : Heap} {index : Nat}
    (kept : model.keep entries heap = some (index, heap')) :
    heap <+: heap' ∧ (heap.Valid → heap'.Valid) ∧
      ∃ record, heap'[index]? = some record ∧ record.model = model ∧
        ∀ later, heap' <+: later → model.dump later record.held = entries := by
  match model with
  | .mk name fields layout =>
    obtain ⟨⟨held, heap₁⟩, kept_fields, same⟩ := Option.bind_eq_some_iff.mp kept
    cases same
    obtain ⟨grows, valid, distinct, filled, dumped⟩ := grows_of_keepFields kept_fields
    refine ⟨grows.trans (List.prefix_append _ _), fun before =>
      (valid before).append distinct filled, _, List.getElem?_concat_length, rfl, ?_⟩
    exact fun later more => dumped later ((List.prefix_append _ _).trans more)

theorem grows_of_keepFields {fields : List Field} {entries : Entries} {heap heap' : Heap}
    {held : List (Text × Object Nat)}
    (kept : keepFields fields entries heap = some (held, heap')) :
    heap <+: heap' ∧ (heap.Valid → heap'.Valid) ∧ (fields.map Field.name).Nodup ∧
      (∀ field ∈ fields, heap'.Filled held field) ∧
      ∀ later, heap' <+: later → dumpFields fields later held = entries := by
  match fields, entries with
  | [], [] =>
    cases kept
    exact ⟨List.prefix_rfl, id, List.nodup_nil, nofun, fun _ _ => rfl⟩
  | [], _ :: _ => cases kept
  | .mk name type default :: rest, [] => cases kept
  | .mk name type default :: rest, (key, value) :: entries =>
    obtain ⟨object, heap₁, held', rfl, fresh, first, kept_rest, rfl⟩ :=
      exists_of_keepFields_cons kept
    obtain ⟨grows, valid, distinct, filled, dumped⟩ := grows_of_keepFields kept_rest
    have head : heap <+: heap₁ ∧ (heap.Valid → heap₁.Valid) ∧
        (heap₁.Conforms type object ∨ default ≠ none ∧ ∃ value, object = .plain value) ∧
        ∀ later, heap₁ <+: later → type.dump later object = value := by
      rcases first with kept_first | ⟨given, rfl, rfl⟩
      · have kept := type.keptAs_of_keep kept_first
        exact ⟨kept.grows, kept.valid, .inl kept.conforms, kept.dump_eq⟩
      · exact ⟨List.prefix_rfl, id, .inr ⟨given, _, rfl⟩, fun _ _ => FieldType.dump_plain _ _⟩
    obtain ⟨grows₁, valid₁, conforms, dumped₁⟩ := head
    -- The first name does not come again, so it hides no other field.
    have apart : ∀ field ∈ rest, List.lookup field.name ((name, object) :: held') =
        List.lookup field.name held' := by
      intro field member
      have other : (field.name == name) = false :=
        beq_eq_false_iff_ne.mpr fun same => fresh (same ▸ List.mem_map_of_mem member)
      rw [List.lookup_cons, other]
    refine ⟨grows₁.trans grows, fun before => valid (valid₁ before),
      List.nodup_cons.mpr ⟨fresh, distinct⟩, List.forall_mem_cons.mpr ⟨?_, ?_⟩, ?_⟩
    · refine ⟨object, List.lookup_cons_self, conforms.imp_left ?_⟩
      exact (·.mono (Heap.stays_of_grows grows))
    · intro field member
      obtain ⟨inside, found, holds⟩ := filled field member
      exact ⟨inside, (apart field member).trans found, holds⟩
    · intro later more
      have same : dumpFields rest later ((name, object) :: held') = dumpFields rest later held' := by
        rw [dumpFields_eq_map, dumpFields_eq_map]
        refine List.map_congr_left fun field member => ?_
        rw [apart field member]
      rw [dumpFields, List.lookup_cons_self, same, dumped later more]
      exact congrArg (fun value => (Value.text name, value) :: entries)
        (dumped₁ later (grows.trans more))

end

/-- A record that is kept has the values that were given. -/
theorem Heap.dump_of_keep {model : Model} {entries : Entries} {heap heap' : Heap} {index : Nat}
    (kept : model.keep entries heap = some (index, heap')) : heap'.dump index = entries := by
  obtain ⟨-, -, record, there, rfl, dumped⟩ := Model.grows_of_keep kept
  rw [Heap.dump, there, Option.elim_some]
  exact dumped heap' List.prefix_rfl

section Existence

theorem exists_keepItems {item : Value → Heap → Option (Object Nat × Heap)} {values : List Value}
    (each : ∀ value ∈ values, ∀ heap, ∃ kept, item value heap = some kept) (heap : Heap) :
    ∃ kept, keepItems item values heap = some kept := by
  induction values generalizing heap with
  | nil => exact ⟨_, rfl⟩
  | cons first rest ih =>
    obtain ⟨each_first, each_rest⟩ := List.forall_mem_cons.mp each
    obtain ⟨⟨object, heap₁⟩, kept_first⟩ := each_first heap
    obtain ⟨⟨objects, heap₂⟩, kept_rest⟩ := ih each_rest heap₁
    exact ⟨(object :: objects, heap₂), by simp [keepItems, kept_first, kept_rest]⟩

theorem exists_keepFields {fields : List Field} {entries : Entries}
    (distinct : (fields.map Field.name).Nodup)
    (names : entries.keys = fields.map fun field => .text field.name)
    (each : ∀ field ∈ fields, ∀ value, entries.field? field.name = some value →
      ∀ heap, ∃ kept, field.type.keep value heap = some kept) (heap : Heap) :
    ∃ kept, keepFields fields entries heap = some kept := by
  induction fields generalizing entries heap with
  | nil =>
    obtain rfl : entries = [] := List.map_eq_nil_iff.mp names
    exact ⟨_, rfl⟩
  | cons field rest ih =>
    obtain ⟨name, type, default⟩ := field
    cases entries with
    | nil => cases names
    | cons entry others =>
      obtain ⟨key, value⟩ := entry
      obtain ⟨rfl, names_rest⟩ := List.cons.inj names
      obtain ⟨fresh, distinct_rest⟩ := List.nodup_cons.mp distinct
      obtain ⟨each_first, each_rest⟩ := List.forall_mem_cons.mp each
      obtain ⟨⟨object, heap₁⟩, (kept_first : type.keep value heap = _)⟩ :=
        each_first value Entries.field?_cons_self heap
      have each_rest : ∀ field ∈ rest, ∀ value, Entries.field? others field.name = some value →
          ∀ heap, ∃ kept, field.type.keep value heap = some kept := by
        intro field member value found
        refine each_rest field member value ?_
        rwa [Entries.field?_cons_of_ne]
        exact fun same => fresh (Value.text.inj same ▸ List.mem_map_of_mem member)
      obtain ⟨⟨held, heap₂⟩, kept_rest⟩ := ih distinct_rest names_rest each_rest heap₁
      have fresh : (rest.map Field.name).contains name = false :=
        Bool.eq_false_iff.mpr (mt List.contains_iff_mem.mp fresh)
      refine ⟨((name, object) :: held, heap₂), ?_⟩
      simp only [keepFields, Field.name, fresh, kept_first, kept_rest, ne_eq, not_true_eq_false,
        decide_false, Bool.or_false, Bool.false_eq_true, ↓reduceIte, Option.some_or,
        Option.bind_eq_bind, Option.bind_some]

/-- A value within the bounds of its type can be kept. -/
theorem FieldType.exists_keep_of_holds {type : FieldType} {value : Value}
    (holds : type.Holds value) (heap : Heap) : ∃ kept, type.keep value heap = some kept := by
  induction holds generalizing heap with
  | int | bytes | text | dict | any => exact ⟨_, rfl⟩
  | unsigned least less =>
    refine ⟨_, if_pos ?_⟩
    simpa [FieldType.admitsPlain, Nat.shiftLeft_eq] using And.intro least less
  | fixedBytes same => exact ⟨_, if_pos (beq_iff_eq.mpr same)⟩
  | list _ each =>
    obtain ⟨⟨objects, heap'⟩, kept⟩ := exists_keepItems each heap
    exact ⟨(.list objects, heap'), Option.bind_eq_some_iff.mpr ⟨_, kept, rfl⟩⟩
  | nothing => exact ⟨_, rfl⟩
  | @optional content value some _ inside =>
    cases value with
    | null => exact absurd rfl some
    | _ => exact inside heap
  | @record name fields layout entries distinct names _ each =>
    obtain ⟨⟨held, heap'⟩, kept⟩ := exists_keepFields distinct names each heap
    have record : (Model.mk name fields layout).keep entries heap =
        some (heap'.length, heap' ++ [⟨.mk name fields layout, held⟩]) :=
      Option.bind_eq_some_iff.mpr ⟨_, kept, rfl⟩
    exact ⟨_, Option.bind_eq_some_iff.mpr ⟨_, record, rfl⟩⟩

end Existence

end Keeping

section Validation

/-- Only nothing is taken for nothing. -/
theorem FieldType.Keeps.eq_null {type : FieldType} {value : Value} (keeps : type.Keeps value .null) :
    value = .null := by
  generalize same : Value.null = value' at keeps
  induction keeps with
  | leaf | nothing => rfl
  | list | record => cases same
  | optional some _ inside => exact inside same

/-- A value that is taken as it stands is validated, if what it comes out as is within the bounds. -/
theorem FieldType.validate_of_keeps {type : FieldType} {value value' : Value}
    (keeps : type.Keeps value value') (holds : type.Holds value') :
    type.validate value = .ok value' := by
  induction keeps with
  | leaf leaf =>
    cases holds with
    | int | bytes | text | dict | any => rfl
    | @unsigned bits n least less =>
      exact map_eq_ok_iff.mpr ⟨n, checkBits_eq_ok_iff.mpr ⟨rfl, least, less⟩, rfl⟩
    | @fixedBytes length raw same =>
      exact map_eq_ok_iff.mpr ⟨raw, checkByteCount_eq_ok_iff.mpr ⟨rfl, same⟩, rfl⟩
    | list | nothing | optional | record => exact leaf.elim
  | @list item items items' length _ each =>
    cases holds with
    | list held =>
      refine validate_list_eq_ok_iff.mpr ⟨items, items', .inl rfl, ?_, rfl⟩
      refine List.forall₂_iff_get.mpr ⟨length, fun index bound bound' => ?_⟩
      exact each index _ _ (List.getElem?_eq_getElem bound) (List.getElem?_eq_getElem bound')
        (held _ (List.getElem_mem bound'))
  | nothing => rfl
  | optional some inside each =>
    refine validate_optional_eq_ok_iff.mpr (.inr ⟨some, ?_⟩)
    cases holds with
    | nothing => exact absurd inside.eq_null some
    | optional _ held => exact each held
  | @record name fields layout entries record known names given absent each =>
    cases holds with
    | record distinct _ held =>
      refine validate_record_eq_ok_iff.mpr ⟨entries, record, rfl,
        Model.validate_eq_ok_iff.mpr ⟨validateFields_eq_ok_iff.mpr ⟨names, ?_⟩, ?_⟩, rfl⟩
      · intro index field key value' listed there
        refine ⟨fun value found => ?_, absent index field key value' listed there⟩
        exact each index field key value value' listed there found
          (held field (List.mem_of_getElem? listed) value'
            (Entries.field?_of_getElem? distinct names listed there))
      · intro key member
        obtain ⟨field, declared, rfl⟩ := known key member
        exact ⟨field.name, List.mem_map_of_mem declared, rfl⟩

/-- A value of the kind of its type is taken as it stands. -/
theorem FieldType.keeps_of_validate {type : FieldType} {value value' : Value}
    (typed : type.Typed value) (valid : type.validate value = .ok value') :
    type.Keeps value value' := by
  induction typed generalizing value' with
  | int | bytes | text | dict | any =>
    cases valid
    exact .leaf trivial
  | unsigned =>
    obtain ⟨n, bounds, rfl⟩ := map_eq_ok_iff.mp valid
    obtain ⟨rfl, -⟩ := checkBits_eq_ok_iff.mp bounds
    exact .leaf trivial
  | fixedBytes =>
    obtain ⟨raw, bounds, rfl⟩ := map_eq_ok_iff.mp valid
    obtain ⟨rfl, -⟩ := checkByteCount_eq_ok_iff.mp bounds
    exact .leaf trivial
  | @list item items _ each =>
    obtain ⟨_, items', listed, validated, rfl⟩ := validate_list_eq_ok_iff.mp valid
    simp only [Value.list.injEq, reduceCtorEq, false_and, exists_false, or_false] at listed
    subst listed
    refine .list validated.length_eq fun index value value' there there' => ?_
    obtain ⟨bound, rfl⟩ := List.getElem?_eq_some_iff.mp there
    obtain ⟨bound', rfl⟩ := List.getElem?_eq_some_iff.mp there'
    exact each _ (List.getElem_mem bound) (validated.get bound bound')
  | nothing =>
    cases valid
    exact .nothing
  | optional _ inside =>
    rcases validate_optional_eq_ok_iff.mp valid with ⟨rfl, rfl⟩ | ⟨some, valid⟩
    · exact .nothing
    · exact .optional some (inside valid)
  | record _ each =>
    obtain ⟨entries, record, dict, accepted, rfl⟩ := validate_record_eq_ok_iff.mp valid
    cases dict
    obtain ⟨validated, known⟩ := Model.validate_eq_ok_iff.mp accepted
    obtain ⟨names, one_by_one⟩ := validateFields_eq_ok_iff.mp validated
    refine .record (fun key member => ?_) names
      (fun index field key value value' listed there found => ?_)
      fun index field key value' listed there =>
        (one_by_one index field key value' listed there).2
    · obtain ⟨_, listed, same⟩ := known key member
      obtain ⟨field, declared, rfl⟩ := List.mem_map.mp listed
      exact ⟨field, declared, same⟩
    · exact each field (List.mem_of_getElem? listed) value found
        ((one_by_one index field key value' listed there).1 value found)

end Validation

namespace Heap

variable {heap heap' : Heap}

section Steps

variable {model : Model} {given : Object Nat} {index : Nat}

theorem create_eq_ok_iff :
    create model given heap = (.ok index, heap') ↔
      ∃ entries record, given.value heap.dump = .dict entries ∧
        model.validate entries = .ok record ∧ model.keep record heap = some (index, heap') := by
  rw [create]
  cases given.value heap.dump with
  | dict entries =>
    cases valid : model.validate entries with
    | error issues => simp [valid]
    | ok record =>
      cases kept : model.keep record heap with
      | none => simp [valid, kept]
      | some made => simp [valid, kept, Prod.ext_iff]
  | _ => simp

theorem eq_of_create_error {issues : List Issue}
    (refused : create model given heap = (.error issues, heap')) : heap' = heap := by
  rw [create] at refused
  split at refused
  · split at refused
    · cases refused
      rfl
    · split at refused
      · cases refused
        rfl
      · cases refused
  · cases refused
    rfl

/-- Something can be stored under the name of a field. -/
theorem mem_of_assignable {name : Text} {field : Field}
    (assignable : model.assignable name = .ok (some field)) :
    field ∈ model.fields ∧ field.name = name := by
  rw [Model.assignable] at assignable
  split_ifs at assignable
  · cases assignable
  · split at assignable
    · cases assignable
    · split at assignable
      · cases assignable
      · next other found =>
        cases assignable
        exact ⟨List.mem_of_find?_eq_some found, by simpa using List.find?_some found⟩

/-- A change that is accepted puts an object of the type of a field under its name, or it stands for
no field and changes nothing. -/
theorem exists_of_assign_ok {name : Text}
    (assigned : assign index name given heap = (.ok (), heap')) :
    heap' = heap ∨ ∃ record field value object heap₁, heap[index]? = some record ∧
      field ∈ record.model.fields ∧ field.name = name ∧
      field.type.keep value heap = some (object, heap₁) ∧
      heap' = heap₁.set index (record.replace name object) := by
  rw [assign] at assigned
  split at assigned
  · cases assigned
  · next record at_index =>
    split at assigned
    · cases assigned
    · cases assigned
      exact .inl rfl
    · next field assignable =>
      split at assigned
      · cases assigned
      · next value valid =>
        split at assigned
        · cases assigned
        · next object heap₁ kept =>
          cases assigned
          obtain ⟨declared, named⟩ := mem_of_assignable assignable
          exact .inr ⟨record, field, value, object, heap₁, at_index, declared, named, kept, rfl⟩

theorem eq_of_assign_error {name : Text} {error : AssignError}
    (refused : assign index name given heap = (.error error, heap')) : heap' = heap := by
  rw [assign] at refused
  repeat' split at refused
  all_goals
    cases refused
    try rfl

end Steps

section Preservation

variable {record : RecordObject} {name other : Text} {object : Object Nat}

theorem lookup_replace : (record.replace name object).held.lookup other =
    (record.held.lookup other).map fun old => if other = name then object else old := by
  rw [RecordObject.replace]
  induction record.held with
  | nil => rfl
  | cons entry rest ih =>
    obtain ⟨key, old⟩ := entry
    rw [List.map_cons, List.lookup_cons, List.lookup_cons, ih]
    cases same : other == key with
    | false => rfl
    | true =>
      obtain rfl := beq_iff_eq.mp same
      rfl

/-- A record with another object is a record of its model still. -/
theorem stays_set_replace {index : Nat} (at_index : heap[index]? = some record) :
    heap.Stays (heap.set index (record.replace name object)) := by
  intro place model there
  by_cases same : index = place
  · subst same
    obtain ⟨bound, -⟩ := List.getElem?_eq_some_iff.mp at_index
    rw [at_index] at there
    rw [List.getElem?_set_self bound]
    exact there
  · rwa [List.getElem?_set_ne same]

/-- A field of a valid record may be replaced by what conforms to its type. -/
theorem Valid.set_replace (valid : heap.Valid) {index : Nat} (at_index : heap[index]? = some record)
    {field : Field} (declared : field ∈ record.model.fields)
    (conforms : heap.Conforms field.type object) :
    Heap.Valid (heap.set index (record.replace field.name object)) := by
  have stays : heap.Stays (heap.set index (record.replace field.name object)) :=
    stays_set_replace at_index
  intro other member
  rcases List.mem_or_eq_of_mem_set member with old | rfl
  · obtain ⟨distinct, filled⟩ := valid other old
    exact ⟨distinct, fun field declared => (filled field declared).mono stays⟩
  · obtain ⟨distinct, filled⟩ := valid record (List.mem_of_getElem? at_index)
    refine ⟨distinct, fun other inside => ?_⟩
    obtain ⟨old, found, holds⟩ := filled other inside
    -- Names are distinct, so an object under the name of the field is that of the field.
    by_cases same : other.name = field.name
    · obtain rfl := List.inj_on_of_nodup_map distinct inside declared same
      refine ⟨object, ?_, .inl (conforms.mono stays)⟩
      rw [lookup_replace, found, Option.map_some, if_pos rfl]
    · refine ⟨old, ?_, holds.imp_left (·.mono stays)⟩
      rw [lookup_replace, found, Option.map_some, if_neg same]

/-- A record that is made leaves valid ones, and those that there are stay what they are. -/
theorem stays_of_create {model : Model} {given : Object Nat} {index : Nat}
    (created : create model given heap = (.ok index, heap')) :
    heap.Stays heap' ∧ (heap.Valid → heap'.Valid) ∧
      heap'[index]?.map RecordObject.model = some model := by
  obtain ⟨entries, values, -, -, kept⟩ := create_eq_ok_iff.mp created
  obtain ⟨grows, valid, made, there, rfl, -⟩ := Model.grows_of_keep kept
  exact ⟨stays_of_grows grows, valid, congrArg (Option.map RecordObject.model) there⟩

/-- So does a change. -/
theorem stays_of_assign {index : Nat} {given : Object Nat}
    (assigned : assign index name given heap = (.ok (), heap')) :
    heap.Stays heap' ∧ (heap.Valid → heap'.Valid) := by
  rcases exists_of_assign_ok assigned with
    rfl | ⟨record, field, value, object, heap₁, at_index, declared, rfl, kept, rfl⟩
  · exact ⟨fun _ _ => id, id⟩
  · have head := field.type.keptAs_of_keep kept
    -- The records in the new field come behind the changed one, which is still in its place.
    have at_index₁ : heap₁[index]? = some record := by
      obtain ⟨added, rfl⟩ := head.grows
      obtain ⟨bound, -⟩ := List.getElem?_eq_some_iff.mp at_index
      rw [List.getElem?_append_left bound, at_index]
    refine ⟨fun place model there => ?_, fun valid => ?_⟩
    · exact stays_set_replace at_index₁ (stays_of_grows head.grows there)
    · exact (head.valid valid).set_replace at_index₁ declared head.conforms

/-- Records of a valid heap have the values of what they hold. -/
theorem Valid.dump_eq (valid : heap.Valid) {index : Nat} (at_index : heap[index]? = some record) :
    heap.dump index = record.model.fields.map fun field =>
      (.text field.name, (record.held.lookup field.name).elim .null (·.value heap.dump)) := by
  rw [dump, at_index, Option.elim_some, Model.dump_eq_map]
  refine List.map_congr_left fun field declared => ?_
  obtain ⟨object, found, conforms | ⟨-, value, rfl⟩⟩ :=
    (valid record (List.mem_of_getElem? at_index)).2 field declared
  · rw [found]
    exact congrArg _ conforms.dump_eq
  · rw [found]
    exact congrArg _ (field.type.dump_plain value)

end Preservation

end Heap

namespace RecordLibrary

variable {heap heap' : Heap}

/-- What conforms is what may be held. -/
theorem admits_of_conforms {type : FieldType} {object : Object Nat}
    (conforms : heap.Conforms type object) : converting.Admits heap type object := by
  induction conforms with
  | @leaf type value leaf admits =>
    cases type with
    | dict => exact .dict
    | any => exact .any
    | int =>
      cases value with
      | int n => exact .int
      | _ => cases admits
    | unsigned bits =>
      cases value with
      | int n =>
        have bounds : 0 ≤ n ∧ n < 2 ^ bits := by
          simpa [FieldType.admitsPlain, Nat.shiftLeft_eq] using admits
        exact .unsigned bounds.1 bounds.2
      | _ => cases admits
    | bytes =>
      cases value with
      | bytes holder raw =>
        cases holder with
        | fixed => exact .bytes
        | _ => cases admits
      | _ => cases admits
    | fixedBytes length =>
      cases value with
      | bytes holder raw =>
        cases holder with
        | fixed => exact .fixedBytes (beq_iff_eq.mp admits)
        | _ => cases admits
      | _ => cases admits
    | text =>
      cases value with
      | text t => exact .text
      | _ => cases admits
    | list | optional | record => exact leaf.elim
  | list _ each => exact .list each
  | nothing => exact .nothing
  | optional _ inside => exact .optional inside
  | record there => exact .record there

/-- Of a valid record every field without a default is enforced. -/
theorem enforced_of_valid (valid : heap.Valid) {index : Nat} {model : Model}
    (there : converting.model? heap index = some model) {field : Field}
    (declared : field ∈ model.fields) (required : field.default = none) :
    converting.Enforced heap index field := by
  obtain ⟨record, at_index, rfl⟩ := Option.map_eq_some_iff.mp there
  obtain ⟨object, found, conforms | ⟨optional, -⟩⟩ :=
    (valid record (List.mem_of_getElem? at_index)).2 field declared
  · exact ⟨object, Option.bind_eq_some_iff.mpr ⟨record, at_index, found⟩,
      admits_of_conforms conforms⟩
  · exact absurd required optional

theorem advances_of_stays (stays : heap.Stays heap') (valid : heap'.Valid) :
    converting.Advances heap heap' :=
  ⟨fun there => stays there, fun there _ declared required =>
    .inr (enforced_of_valid valid there declared required)⟩

/-- All heaps that can be reached are valid. -/
theorem valid_of_reached {s : converting.State} (reached : converting.Reached s) :
    Heap.Valid s := by
  induction reached with
  | start => exact nofun
  | @create before reached model given valid =>
    cases created : Heap.create model given before with
    | mk outcome after =>
      have same : (converting.create model given before).2 = after := congrArg Prod.snd created
      rw [same]
      cases outcome with
      | ok index => exact (Heap.stays_of_create created).2.1 valid
      | error issues => exact Heap.eq_of_create_error created ▸ valid
  | @assign before reached record name given valid =>
    cases assigned : Heap.assign record name given before with
    | mk outcome after =>
      have same : (converting.assign record name given before).2 = after :=
        congrArg Prod.snd assigned
      rw [same]
      cases outcome with
      | ok done => exact (Heap.stays_of_assign assigned).2 valid
      | error error => exact Heap.eq_of_assign_error assigned ▸ valid

/-- The library does what is expected of one. -/
theorem enforces_converting : converting.Enforces where
  start _ := rfl
  create_ok reached created := by
    obtain ⟨stays, valid, there⟩ := Heap.stays_of_create created
    exact ⟨advances_of_stays stays (valid (valid_of_reached reached)), there⟩
  create_error _ refused := Heap.eq_of_create_error refused
  assign_ok reached assigned := by
    obtain ⟨stays, valid⟩ := Heap.stays_of_assign assigned
    exact advances_of_stays stays (valid (valid_of_reached reached))
  assign_error _ refused := Heap.eq_of_assign_error refused
  dump_eq := by
    intro heap index model reached there _
    obtain ⟨record, at_index, rfl⟩ := Option.map_eq_some_iff.mp there
    have held : ∀ name, converting.held? heap index name = record.held.lookup name :=
      fun name => congrArg (·.bind fun record => record.held.lookup name) at_index
    simp only [held]
    exact (valid_of_reached reached).dump_eq at_index
  accepts := by
    intro model entries record heap _ keeps holds
    obtain ⟨_, _, same, valid, same'⟩ :=
      FieldType.validate_record_eq_ok_iff.mp (FieldType.validate_of_keeps keeps holds)
    cases same
    cases same'
    obtain ⟨⟨object, heap'⟩, kept⟩ := FieldType.exists_keep_of_holds holds heap
    obtain ⟨⟨index, _⟩, kept_record, same⟩ := Option.bind_eq_some_iff.mp kept
    cases same
    have created : Heap.create model (.plain (.dict entries)) heap = (.ok index, heap') :=
      Heap.create_eq_ok_iff.mpr ⟨entries, record, rfl, valid, kept_record⟩
    exact ⟨index, heap', created, Heap.dump_of_keep kept_record⟩

/-- Nothing that is of the declared type is converted. -/
theorem takesTyped_converting : converting.TakesTyped := by
  intro model value heap index heap' _ created typed
  obtain ⟨entries, record, given, valid, kept⟩ := Heap.create_eq_ok_iff.mp created
  obtain rfl : value = .dict entries := given
  rw [show converting.dump heap' index = record from Heap.dump_of_keep kept]
  exact FieldType.keeps_of_validate typed
    (FieldType.validate_record_eq_ok_iff.mpr ⟨entries, record, rfl, valid, rfl⟩)

end RecordLibrary

end BitLayout
