import BitLayout.Proofs.Encoding.Position
import BitLayout.Proofs.Places
import BitLayout.Proofs.Value.Merging

/-!
# Editing a number in an encoded value

Another number in a bit or wide field changes the bits of this field and no others, unless a
reference is to it. Neither other slots nor other items can see the number: they have other names or
positions, and no reference tells them. So they append what they have appended before, behind a field
that is as wide as before.

## Main definitions

* `Entries.AgreesExcept`: records that differ in one field at most
* `Writing.Untouched`: a value and a scope in which a layout does not see an edit
* `Writing.EditsRun`: replacing a number replaces one run of bits

## Main results

* `Layout.encode_of_untouched`: a layout that does not see an edit writes the same
* `Writing.Reaches.editsRun`: every number that is reached by a path that is not used has its run
* `Layout.encodeWithin_replaceAt`: the same for the bytes of a whole value
-/

namespace BitLayout

/-- Two records with the same fields, except for the one of the given name. -/
def Entries.AgreesExcept (record' : Entries) (name : Text) (record : Entries) : Prop :=
  ∀ other, other ≠ name → record'.field? other = record.field? other

theorem Entries.agreesExcept_insert (record : Entries) (name : Text) (value : Value) :
    (record.insert (.text name) value).AgreesExcept name record :=
  fun _ different => field?_insert_of_ne (Ne.symm different)

theorem resolveField_congr {record record' : Entries} {name : Text}
    (same : record'.field? name = record.field? name) :
    resolveField (some record') name = resolveField (some record) name := by
  simp only [resolveField, same]

theorem Length.resolve_congr {length : Length} {scope scope' : Scope}
    (same : ∀ name, length.field? = some name → resolveField scope' name = resolveField scope name) :
    length.resolve scope' = length.resolve scope := by
  cases length with
  | literal count => rfl
  | field name => exact same name rfl

/-- A layout sees no difference in another scope and value. What it refers to is the same, and so is
the value, unless it is a record in which another field is edited that is not used. -/
structure Writing.Untouched (visit : Writing) (scope' : Scope) (value' : Value) : Prop where
  references : ∀ name, visit.RefersTo name →
    resolveField scope' name = resolveField visit.scope name
  value : value' = visit.value ∨ ∃ (name : Text) (record record' : Entries), visit.value = .dict record ∧
    value' = .dict record' ∧ record'.AgreesExcept name record ∧
    name ∉ visit.layout.mergedNames ∧ ¬visit.Uses [.field name]

section Untouched

variable {memory : Memory} {scope scope' : Scope} {value value' : Value} {w w' : BitWriter}

theorem Writing.Untouched.resolve {layout : Layout} {length : Length}
    (untouched : Untouched ⟨layout, scope, value⟩ scope' value')
    (same : layout.reference? = length.field?) : length.resolve scope' = length.resolve scope := by
  apply Length.resolve_congr
  intro name refers
  exact untouched.references name (.here (same.trans refers))

/-- Only a record is edited. -/
theorem Writing.Untouched.eq {layout : Layout}
    (untouched : Untouched ⟨layout, scope, value⟩ scope' value')
    (noRecord : ∀ record, value ≠ .dict record) : value' = value := by
  rcases untouched.value with same | ⟨_, record, _, dict, -⟩
  · exact same
  · exact absurd dict (noRecord record)

section Slots

variable {slots : List Slot} {slot : Slot} {layout : Layout} {record record' : Entries} {name : Text}

/-- What a slot refers to is no edited field that is not used. -/
theorem Slot.resolveField_of_unused (member : slot ∈ slots) (same : slot.layout? = some layout)
    (agrees : record'.AgreesExcept name record)
    (unused : ¬Writing.Uses ⟨.sequence slots, scope, .dict record⟩ [.field name]) (other : Text)
    (refers : Writing.RefersTo ⟨layout, some record, slot.load record⟩ other) :
    resolveField (some record') other = resolveField (some record) other := by
  apply resolveField_congr (agrees other _)
  rintro rfl
  exact unused ⟨[], slots, scope, record, slot, layout, other, .here _, member, same, refers, rfl⟩

/-- A slot of another name does not see the edit of a field that is not used. -/
theorem Slot.untouched (member : slot ∈ slots) (same : slot.layout? = some layout)
    (agrees : record'.AgreesExcept name record) (different : name ∉ slot.names)
    (unused : ¬Writing.Uses ⟨.sequence slots, scope, .dict record⟩ [.field name]) :
    Writing.Untouched ⟨layout, some record, slot.load record⟩ (some record')
      (slot.load record') := by
  constructor
  · exact Slot.resolveField_of_unused member same agrees unused
  · cases slot with
    | named other =>
      left
      rw [Slot.load, Slot.load, agrees other]
      rintro rfl
      exact different List.mem_cons_self
    | embedded =>
      cases same
      right
      refine ⟨name, record, record', rfl, rfl, agrees, different, fun uses => unused ?_⟩
      obtain ⟨index, there⟩ := List.mem_iff_getElem?.mp member
      have hands : Writing.Hands ⟨.sequence slots, scope, .dict record⟩ (.slot index)
          ⟨layout, some record, .dict record⟩ := .slot there rfl
      have uses_whole := uses.step hands
      rwa [Writing.pathOf_slot there] at uses_whole
    | padding | foreign => exact Or.inl rfl

end Slots

theorem Writing.Untouched.alternative {discriminant : Text} {cases : List (Integer × Layout)}
    {otherwise : Option Layout} {key : Integer} {layout : Layout}
    (untouched : Untouched ⟨.branch discriminant cases otherwise, scope, value⟩ scope' value')
    (found : resolveField scope discriminant = .ok key)
    (chosen : Layout.select cases otherwise key = some layout) :
    Untouched ⟨layout, scope, value⟩ scope' value' := by
  refine ⟨fun name refers => untouched.references name (.alternative (.alternative found chosen)
    refers), untouched.value.imp_right ?_⟩
  rintro ⟨name, record, record', dict, dict', agrees, different, unused⟩
  have within : layout.mergedNames ⊆ (Layout.branch discriminant cases otherwise).mergedNames :=
    (Layout.alternative_of_select chosen).mergedNames_subset
  refine ⟨name, record, record', dict, dict', agrees, fun listed => different (within listed), ?_⟩
  exact fun uses => unused (uses.step (.alternative found chosen))

/-- A layout that does not see an edit writes the same. -/
theorem Layout.encode_of_untouched {layout : Layout} (wellFormed : layout.WellFormed)
    (untouched : Writing.Untouched ⟨layout, scope, value⟩ scope' value')
    (wrote : layout.encode memory value scope w = .ok w') :
    layout.encode memory value' scope' w = .ok w' := by
  induction layout using Layout.induction generalizing scope scope' value value' w w' with
  | abstract => exact wellFormed.elim
  | sequence slots ih =>
    obtain ⟨record, rfl, wrote⟩ := encode_sequence_eq_ok_iff.mp wrote
    -- Either nothing is edited or a field that none of the slots has.
    rcases untouched.value with rfl | ⟨name, _, record', dict, rfl, agrees, different, unused⟩
    · exact encode_sequence_eq_ok_iff.mpr ⟨record, rfl, wrote⟩
    · cases dict
      refine encode_sequence_eq_ok_iff.mpr ⟨record', rfl, encodeSlots_of_forall wellFormed ?_ wrote⟩
      intro slot member layout same w w' wrote_slot
      apply ih slot member layout same (wellFormed.of_mem member same) _ wrote_slot
      exact Slot.untouched member same agrees
        (fun listed => different (Slot.names_subset member listed)) unused
  | array length element ih =>
    obtain ⟨items, count, listed, resolved, same, wrote⟩ := encode_array_eq_ok_iff.mp wrote
    rw [untouched.eq (by rintro record rfl; cases listed)]
    rw [← untouched.resolve rfl] at resolved
    exact encode_array_eq_ok_iff.mpr ⟨items, count, listed, resolved, same, wrote⟩
  | branch discriminant cases otherwise ih =>
    obtain ⟨key, layout, found, chosen, wrote⟩ := encode_branch_eq_ok_iff.mp wrote
    have alternative := alternative_of_select chosen
    have wrote' := ih layout alternative (wellFormed.alternative alternative)
      (untouched.alternative found chosen) wrote
    have found' := untouched.references discriminant (.here rfl)
    exact encode_branch_eq_ok_iff.mpr ⟨key, layout, found'.trans found, chosen, wrote'⟩
  | bitField width =>
    obtain ⟨n, number, wrote⟩ := encode_bitField_eq_ok_iff.mp wrote
    rw [untouched.eq (by rintro record rfl; cases number)]
    exact encode_bitField_eq_ok_iff.mpr ⟨n, number, wrote⟩
  | wideField width =>
    rw [encode_wideField_eq_ok_iff] at wrote ⊢
    obtain ⟨n, number, wrote⟩ := encode_bitField_eq_ok_iff.mp wrote
    rw [untouched.eq (by rintro record rfl; cases number)]
    exact encode_bitField_eq_ok_iff.mpr ⟨n, number, wrote⟩
  | byteSlice length =>
    obtain ⟨holder, raw, rfl, wrote⟩ := encode_byteSlice_eq_ok_iff.mp wrote
    obtain ⟨⟨count, resolved⟩, wrote⟩ := writeSlice_eq_ok_iff.mp wrote
    rw [← untouched.resolve rfl] at resolved
    rw [untouched.eq (by simp)]
    exact encode_byteSlice_eq_ok_iff.mpr
      ⟨holder, raw, rfl, writeSlice_eq_ok_iff.mpr ⟨⟨count, resolved⟩, wrote⟩⟩
  | text length encoding =>
    obtain ⟨t, raw, rfl, spelled, wrote⟩ := encode_text_eq_ok_iff.mp wrote
    obtain ⟨⟨count, resolved⟩, wrote⟩ := writeSlice_eq_ok_iff.mp wrote
    rw [← untouched.resolve rfl] at resolved
    rw [untouched.eq (by simp)]
    exact encode_text_eq_ok_iff.mpr
      ⟨t, raw, rfl, spelled, writeSlice_eq_ok_iff.mpr ⟨⟨count, resolved⟩, wrote⟩⟩
  | padding width =>
    rw [encode_padding_eq_ok_iff] at wrote ⊢
    exact wrote

end Untouched

/-- The bits that a layout writes contain a run for the number at a path: another number there, in a
scope in which nothing changes that is referred to, is written as well and changes this run only. -/
def Writing.EditsRun (memory : Memory) (visit : Writing) (path : Path) (width : Nat) : Prop :=
  ∀ {w w' : BitWriter} {written : List Bool}, w.Holds written →
    visit.layout.encode memory visit.value visit.scope w = .ok w' →
    ∃ front run back, run.length = width ∧ w'.Holds (written ++ (front ++ run ++ back)) ∧
      ∀ {new : Value} {n : Integer} (scope' : Scope), new.integer? = some n →
        (∀ name, visit.RefersTo name →
          resolveField scope' name = resolveField visit.scope name) →
        ∃ w'', visit.layout.encode memory (visit.value.replaceAt path new) scope' w = .ok w'' ∧
          w''.Holds (written ++ (front ++ bitsOfNat width (lowBits width n.toInt) ++ back))

namespace Writing

variable {memory : Memory} {visit below : Writing} {path : Path} {width : Integer} {scope : Scope}

theorem encode_number_eq_ok_iff {layout : Layout} {value : Value} {w w' : BitWriter}
    (isNumber : layout = .bitField width ∨ layout = .wideField width) :
    layout.encode memory value scope w = .ok w' ↔
      ∃ n, value.integer? = some n ∧ w.writeIntWithin memory n.toInt width = .ok w' := by
  rcases isNumber with rfl | rfl
  · exact Layout.encode_bitField_eq_ok_iff
  · rw [Layout.encode_wideField_eq_ok_iff, Layout.encode_bitField_eq_ok_iff]

/-- The run of a number itself is all that it writes. -/
theorem editsRun_number
    (isNumber : visit.layout = .bitField width ∨ visit.layout = .wideField width) :
    visit.EditsRun memory [] width.toNat := by
  intro w w' written holds wrote
  obtain ⟨old, number, wrote_old⟩ := (encode_number_eq_ok_iff isNumber).mp wrote
  have appends : ∀ n, Appends (fun w => w.writeIntWithin memory n width) (written.length % 8)
      (bitsOfNat width.toNat (lowBits width.toNat n)) := appends_writeIntWithin wrote_old
  refine ⟨[], bitsOfNat width.toNat (lowBits width.toNat old.toInt), [], length_bitsOfNat _ _, ?_, ?_⟩
  · simpa using (appends old.toInt).holds holds wrote_old
  · intro new n scope' number' _
    obtain ⟨w'', wrote_new, holds'⟩ := appends n.toInt holds rfl
    exact ⟨w'', (encode_number_eq_ok_iff isNumber).mpr ⟨n, number', wrote_new⟩, by simpa using holds'⟩

/-- What comes behind a run starts at the same bit offset if the run is replaced by as many bits. -/
theorem offset_replaced {written front run back : List Bool} {width n : Nat}
    (length_run : run.length = width) :
    (written ++ (front ++ bitsOfNat width n ++ back)).length % 8 =
      (written ++ (front ++ run ++ back)).length % 8 := by
  simp only [List.length_append, length_bitsOfNat, length_run]

/-- The run of a number in a slot lies behind what the earlier slots append and before what the later
ones do. -/
theorem editsRun_slot {slots : List Slot} {slot : Slot} {layout : Layout} {record : Entries}
    {index : Nat} {name : Text} {width : Nat} (wellFormed : WellFormedSlots slots)
    (distinct : DistinctSlots slots) (there : slots[index]? = some slot)
    (same : slot.layout? = some layout) (listed : name ∈ slot.names)
    (unused : ¬Uses ⟨.sequence slots, scope, .dict record⟩ [.field name])
    (edits : EditsRun memory ⟨layout, some record, slot.load record⟩ path width)
    (edited : ∀ new, ∃ record' : Entries,
      (Value.dict record).replaceAt (slot.path ++ path) new = .dict record' ∧
        record'.AgreesExcept name record ∧
        slot.load record' = (slot.load record).replaceAt path new) :
    EditsRun memory ⟨.sequence slots, scope, .dict record⟩ (slot.path ++ path) width := by
  intro w w' written holds wrote
  obtain ⟨_, dict, wrote⟩ := Layout.encode_sequence_eq_ok_iff.mp wrote
  cases dict
  have cut := @encodeSlots_cut memory _ wellFormed
  obtain ⟨wellFormed_earlier, -, wellFormed_later⟩ := wellFormed.cut there
  obtain ⟨w₁, w₂, wrote_earlier, wrote_slot, wrote_later⟩ := (cut there same).mp wrote
  obtain ⟨ahead, appends_earlier⟩ :=
    exists_appends_of_encodeSlots wellFormed_earlier holds wrote_earlier
  have holds₁ := appends_earlier.holds holds wrote_earlier
  obtain ⟨front, run, back, length_run, holds₂, edits_slot⟩ := edits holds₁ wrote_slot
  obtain ⟨behind, appends_later⟩ := exists_appends_of_encodeSlots wellFormed_later holds₂ wrote_later
  have holds' := appends_later.holds holds₂ wrote_later
  refine ⟨ahead ++ front, run, back ++ behind, length_run, by simpa using holds', ?_⟩
  intro new n scope' number _
  obtain ⟨record', value_eq, agrees, load_eq⟩ := edited new
  obtain ⟨not_earlier, not_later⟩ := distinct.apart there listed
  -- The other slots have other names, so they write from the edited record what they wrote before.
  have others : ∀ other ∈ slots, name ∉ other.names → ∀ layout, other.layout? = some layout →
      ∀ {w w'}, layout.encode memory (other.load record) (some record) w = .ok w' →
        layout.encode memory (other.load record') (some record') w = .ok w' := by
    intro other member different layout same w w' wrote
    exact Layout.encode_of_untouched (wellFormed.of_mem member same)
      (Slot.untouched member same agrees different unused) wrote
  have wrote_earlier' : encodeSlots memory (slots.take index) record' w = .ok w₁ := by
    apply encodeSlots_of_forall wellFormed_earlier _ wrote_earlier
    intro other member
    exact others other (List.mem_of_mem_take member)
      fun listed => not_earlier (Slot.names_subset member listed)
  obtain ⟨w₂', wrote_slot', holds₂'⟩ := edits_slot (some record') number
    (Slot.resolveField_of_unused (List.mem_of_getElem? there) same agrees unused)
  -- The run is as wide as before, so the later slots start at the same bit offset.
  obtain ⟨w'', wrote_moved, holds''⟩ := appends_later holds₂' (offset_replaced length_run)
  have wrote_later' : encodeSlots memory (slots.drop (index + 1)) record' w₂' = .ok w'' := by
    apply encodeSlots_of_forall wellFormed_later _ wrote_moved
    intro other member
    exact others other (List.mem_of_mem_drop member)
      fun listed => not_later (Slot.names_subset member listed)
  refine ⟨w'', ?_, by simpa using holds''⟩
  rw [← load_eq] at wrote_slot'
  rw [value_eq, Layout.encode_sequence_eq_ok_iff]
  exact ⟨record', rfl, (cut there same).mpr ⟨w₁, w₂', wrote_earlier', wrote_slot', wrote_later'⟩⟩

/-- The items of a list are edited one at a time. -/
theorem items?_replaceAt {value new : Value} {items : List Value} {index : Nat} {path : Path}
    (list : value.items? = some items) :
    (value.replaceAt (.index (index : Nat) :: path) new).items? =
      some (items.modify index fun item => item.replaceAt path new) := by
  cases value with
  | list | tuple =>
    cases list
    rfl
  | _ => cases list

/-- The run of a number in an item lies behind what the earlier items append and before what the
later ones do. -/
theorem editsRun_item {length : Length} {element : Layout} {value item : Value} {items : List Value}
    {index width : Nat} (wellFormed : element.WellFormed) (list : value.items? = some items)
    (there : items[index]? = some item) (edits : EditsRun memory ⟨element, none, item⟩ path width) :
    EditsRun memory ⟨.array length element, scope, value⟩ (.index (index : Nat) :: path) width := by
  intro w w' written holds wrote
  obtain ⟨_, count, list', resolved, count_eq, wrote⟩ := Layout.encode_array_eq_ok_iff.mp wrote
  rw [list] at list'
  cases list'
  obtain ⟨within, item_eq⟩ := List.getElem?_eq_some_iff.mp there
  rw [eq_take_append_of_getElem? there] at wrote
  obtain ⟨w₁, wrote_earlier, wrote_rest⟩ := encodeItems_append_eq_ok_iff.mp wrote
  obtain ⟨w₂, wrote_item, wrote_later⟩ := encodeItems_cons_eq_ok_iff.mp wrote_rest
  have portable : element.IsPortable memory := Layout.exists_appends wellFormed
  obtain ⟨ahead, appends_earlier⟩ := exists_appends_of_encodeItems portable holds wrote_earlier
  have holds₁ := appends_earlier.holds holds wrote_earlier
  obtain ⟨front, run, back, length_run, holds₂, edits_item⟩ := edits holds₁ wrote_item
  obtain ⟨behind, appends_later⟩ := exists_appends_of_encodeItems portable holds₂ wrote_later
  have holds' := appends_later.holds holds₂ wrote_later
  refine ⟨ahead ++ front, run, back ++ behind, length_run, by simpa using holds', ?_⟩
  intro new n scope' number references
  obtain ⟨w₂', wrote_item', holds₂'⟩ := edits_item none number fun _ _ => rfl
  obtain ⟨w'', wrote_later', holds''⟩ := appends_later holds₂' (offset_replaced length_run)
  refine ⟨w'', ?_, by simpa using holds''⟩
  -- Modifying an item keeps their number, and the count is not edited.
  have resolved' : length.resolve scope' = .ok count := by
    rw [← resolved]
    exact Length.resolve_congr fun name same => references name (.here same)
  refine Layout.encode_array_eq_ok_iff.mpr
    ⟨_, count, items?_replaceAt list, resolved', by rw [count_eq, List.length_modify], ?_⟩
  rw [List.modify_eq_take_cons_drop within, item_eq]
  refine encodeItems_append_eq_ok_iff.mpr ⟨w₁, wrote_earlier, ?_⟩
  exact encodeItems_cons_eq_ok_iff.mpr ⟨w₂', wrote_item', wrote_later'⟩

/-- A branch edits what its alternative edits, as its discriminant is not edited. -/
theorem editsRun_alternative {discriminant : Text} {cases : List (Integer × Layout)}
    {otherwise : Option Layout} {value : Value} {key : Integer} {layout : Layout} {width : Nat}
    (found : resolveField scope discriminant = .ok key)
    (chosen : Layout.select cases otherwise key = some layout)
    (edits : EditsRun memory ⟨layout, scope, value⟩ path width) :
    EditsRun memory ⟨.branch discriminant cases otherwise, scope, value⟩ path width := by
  intro w w' written holds wrote
  obtain ⟨front, run, back, length_run, holds', edits⟩ :=
    edits holds ((Layout.encode_branch_of_select found chosen).mp wrote)
  refine ⟨front, run, back, length_run, holds', fun scope' number references => ?_⟩
  obtain ⟨w'', wrote', holds''⟩ := edits scope' number
    fun name refers => references name (.alternative (.alternative found chosen) refers)
  have found' := (references discriminant (.here rfl)).trans found
  exact ⟨w'', Layout.encode_branch_eq_ok_iff.mpr ⟨key, layout, found', chosen, wrote'⟩, holds''⟩

/-- Every number that is reached by a path that is not used has a run of its own. -/
theorem Reaches.editsRun (reaches : visit.Reaches path below)
    (isNumber : below.layout = .bitField width ∨ below.layout = .wideField width)
    (wellFormed : visit.layout.WellFormed) (distinct : visit.layout.DistinctNames)
    (unused : ¬visit.Uses path) : visit.EditsRun memory path width.toNat := by
  -- On the steps to the number. What is around a slot is a record, in which the path to the number
  -- starts with one of the names of this slot.
  induction reaches with
  | here => exact editsRun_number isNumber
  | @step _ part below _ path hands rest ih =>
    intro w w' written holds wrote
    have unused_part : ¬part.Uses path := fun uses => unused (uses.step hands)
    have whole := Reaches.step hands rest
    cases hands with
    | @slot slots scope record index slot layout there same =>
      have member := List.mem_of_getElem? there
      have edits : EditsRun memory ⟨layout, some record, slot.load record⟩ path width.toNat :=
        ih isNumber (wellFormed.of_mem member same) (distinct.2.of_mem member same) unused_part
      obtain ⟨-, w₁, w₂, wrote_number⟩ := whole.wrote wellFormed wrote
      obtain ⟨n, number, -⟩ := (encode_number_eq_ok_iff isNumber).mp wrote_number
      rw [pathOf_slot there] at unused whole ⊢
      cases slot with
      | named name =>
        have unused_field := Reaches.not_uses_field whole unused wellFormed wrote
        refine editsRun_slot wellFormed distinct.1 there same List.mem_cons_self unused_field edits
          (fun new => ⟨_, rfl, record.agreesExcept_insert name _, ?_⟩) holds wrote
        rw [Slot.load, Entries.field?_insert_self]
        rfl
      | embedded =>
        obtain ⟨name, rest, rfl, listed⟩ := rest.exists_field rfl number
        cases same
        have unused_field := Reaches.not_uses_field whole unused wellFormed wrote
        exact editsRun_slot wellFormed distinct.1 there rfl listed unused_field edits
          (fun new => ⟨_, rfl, record.agreesExcept_insert name _, rfl⟩) holds wrote
      | padding =>
        rw [(rest.of_null rfl).2] at number
        cases number
      | foreign => cases same
    | item list there =>
      exact editsRun_item wellFormed.2 list there (ih isNumber wellFormed.2 distinct.2 unused_part)
        holds wrote
    | alternative found chosen =>
      have alternative := Layout.alternative_of_select chosen
      exact editsRun_alternative found chosen (ih isNumber (wellFormed.alternative alternative)
        (distinct.alternative alternative) unused_part) holds wrote

end Writing

namespace Layout

variable {memory : Memory} {layout number : Layout} {value old : Value} {scope : Scope} {path : Path}
  {width : Integer} {bytes : List UInt8}

/-- Replacing a number that encoding reaches at a path, and that no reference uses, by any other
number still encodes, to as many bytes, and changes one run of bits only: the bits of the field, which
are where they were, as many as it is wide, and spell the new number modulo a power of two. -/
theorem encodeWithin_replaceAt (wellFormed : layout.WellFormed) (distinct : layout.DistinctNames)
    (wrote : layout.encodeWithin memory value = .ok bytes)
    (reaches : Writing.Reaches ⟨layout, none, value⟩ path ⟨number, scope, old⟩)
    (isNumber : number = .bitField width ∨ number = .wideField width)
    (unused : ¬Writing.Uses ⟨layout, none, value⟩ path) :
    ∃ front run back, bitsOfBytes bytes = front ++ run ++ back ∧ run.length = width.toNat ∧
      ∀ (new : Value) (n : Integer), new.integer? = some n →
        ∃ bytes' run', layout.encodeWithin memory (value.replaceAt path new) = .ok bytes' ∧
          bytes'.length = bytes.length ∧ bitsOfBytes bytes' = front ++ run' ++ back ∧
          run'.length = width.toNat ∧ (natOfBits run' : Int) = n.toInt % 2 ^ width.toNat := by
  obtain ⟨w, wrote_bits, rfl⟩ := map_eq_ok_iff.mp wrote
  obtain ⟨front, run, back, length_run, holds, edits⟩ :=
    reaches.editsRun isNumber wellFormed distinct unused BitWriter.holds_empty wrote_bits
  rw [List.nil_append] at holds
  -- The filling of the last byte belongs to what comes behind the run.
  refine ⟨front, run, back ++ List.replicate (filling (front ++ run ++ back).length) false, ?_,
    length_run, fun new n isInteger => ?_⟩
  · rw [holds.bytes, ← List.append_assoc]
  · obtain ⟨w', wrote', holds'⟩ := edits none isInteger fun _ _ => rfl
    rw [List.nil_append] at holds'
    have length : (front ++ bitsOfNat width.toNat (lowBits width.toNat n.toInt) ++ back).length =
        (front ++ run ++ back).length := by
      simp only [List.length_append, length_bitsOfNat, length_run]
    refine ⟨w'.toBytes, bitsOfNat width.toNat (lowBits width.toNat n.toInt),
      map_eq_ok_iff.mpr ⟨w', wrote', rfl⟩, ?_, ?_, length_bitsOfNat _ _, ?_⟩
    · have size := holds.size
      have size' := holds'.size
      rw [length] at size'
      rw [BitWriter.length_toBytes, BitWriter.length_toBytes]
      omega
    · rw [holds'.bytes, length, ← List.append_assoc]
    · rw [natOfBits_bitsOfNat, Nat.mod_eq_of_lt (lowBits_lt _ _), lowBits_eq, Int.toNat_of_nonneg]
      · push_cast
        rfl
      · exact Int.emod_nonneg _ (by positivity)

/-- Rows with a level of nine bits each, and a depth that depends on the kind. -/
def table : Layout :=
  .sequence
    [.named "kind" (.bitField 3), .named "count" (.bitField 3),
      .named "rows" (.array (.field "count")
        (.sequence [.named "flag" (.bitField 1),
          .embedded (.branch "flag" [(1, .sequence [.named "level" (.wideField 9)])] none)])),
      .embedded (.branch "kind" [(2, .sequence [.named "depth" (.bitField 5)])] none)]

/-- Two rows and their depth. -/
def tableRecord : Entries :=
  [(.text "kind", .int 2), (.text "count", .int 2),
    (.text "rows", .list [.dict [(.text "flag", .int 1), (.text "level", .int 300)],
      .dict [(.text "flag", .int 1), (.text "level", .int 7)]]),
    (.text "depth", .int 17)]

/-- The path to the level of the second row. -/
def tablePath : Path := [.field "rows", .index 1, .field "level"]

theorem reaches_table :
    Writing.Reaches ⟨table, none, .dict tableRecord⟩ tablePath
      ⟨.wideField 9, some [(.text "flag", .int 1), (.text "level", .int 7)], .int 7⟩ := by
  -- From the rows to the second one, and there through the embedded choice to the level.
  have steps : Writing.Reaches ⟨table, none, .dict tableRecord⟩ _
      ⟨.wideField 9, some [(.text "flag", .int 1), (.text "level", .int 7)], .int 7⟩ :=
    .step (@Writing.Hands.slot _ _ _ 2 _ _ rfl rfl)
      (.step (@Writing.Hands.item _ _ _ _ _ _ 1 rfl rfl)
        (.step (@Writing.Hands.slot _ _ _ 1 _ _ rfl rfl)
          (.step (.alternative rfl rfl) (.step (@Writing.Hands.slot _ _ _ 0 _ _ rfl rfl) (.here _)))))
  exact steps

/-- The level of the second row takes seven bits of the third byte and two of the fourth. -/
theorem encodeWithin_replaceAt_table :
    table.WellFormed ∧ table.DistinctNames ∧
      table.encodeWithin .ordinary (.dict tableRecord) = .ok [0x4B, 0x2C, 0x81, 0xE2] ∧
      Writing.Reaches ⟨table, none, .dict tableRecord⟩ tablePath
        ⟨.wideField 9, some [(.text "flag", .int 1), (.text "level", .int 7)], .int 7⟩ ∧
      ¬Writing.Uses ⟨table, none, .dict tableRecord⟩ tablePath ∧
      table.encodeWithin .ordinary ((Value.dict tableRecord).replaceAt tablePath (.int (-1))) =
        .ok [0x4B, 0x2C, 0xFF, 0xE2] ∧
      ∃ front run back run', bitsOfBytes [0x4B, 0x2C, 0x81, 0xE2] = front ++ run ++ back ∧
        bitsOfBytes [0x4B, 0x2C, 0xFF, 0xE2] = front ++ run' ++ back ∧
        run.length = 9 ∧ run'.length = 9 ∧ natOfBits run' = 511 := by
  have wellFormed : table.WellFormed := by decide +kernel
  have distinct : table.DistinctNames := by decide +kernel
  have never : table.NeverRefersTo "level" := by decide +kernel
  have unused : ¬Writing.Uses ⟨table, none, .dict tableRecord⟩ tablePath :=
    Writing.not_uses_of_never never [.field "rows", .index 1]
  have wrote : table.encodeWithin .ordinary (.dict tableRecord) = .ok [0x4B, 0x2C, 0x81, 0xE2] := by
    cbv
  have edited : table.encodeWithin .ordinary
      ((Value.dict tableRecord).replaceAt tablePath (.int (-1))) = .ok [0x4B, 0x2C, 0xFF, 0xE2] := by
    cbv
  obtain ⟨front, run, back, bits, length, edits⟩ :=
    encodeWithin_replaceAt wellFormed distinct wrote reaches_table (Or.inr rfl) unused
  obtain ⟨bytes', run', wrote', -, bits', length', number⟩ := edits (.int (-1)) (.number (-1)) rfl
  rw [edited] at wrote'
  cases wrote'
  have ones : (natOfBits run' : Int) = 511 := number.trans (by decide)
  exact ⟨wellFormed, distinct, wrote, reaches_table, unused, edited, front, run, back, run', bits,
    bits', length, length', by omega⟩

end Layout

end BitLayout
