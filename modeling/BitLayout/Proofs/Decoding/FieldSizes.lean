import BitLayout.Proofs.Decoding.Extension
import BitLayout.Proofs.Embedding
import BitLayout.Proofs.Layout.FieldSizes
import BitLayout.Proofs.Layout.Names
import BitLayout.Proofs.StaticSize
import Mathlib

/-!
# The listed fields of a decoded record

Where all that is embedded are sequences, the names for which sizes are listed are the keys of every
decoded record, in the same order. A name may come more than once, in one sequence or in a sequence
and one that it embeds. Both the record and the list then keep the first place of the name, and take
what the last slot of that name contributes: the record its value, and the list its size.

## Main definitions

* `EmbedOnlySequences`: whatever is embedded is a sequence
* `LastNamed`: the way to the last slot of a name
* `Reading.Writes`, `LastWrites`: a slot, or the last one of a name, has read the value that the
  record has, and as many bits as are listed
* `Tells`: what is listed for slots tells of a reading

## Main results

* `keys_insert_eq`, `keys_merge_eq`: keys and listed names stay in step
* `Tells.named`, `Tells.embedded`: one slot more
* `Layout.fieldSizes_of_decodeBytes`: the listed fields are those of every decoded record
-/

namespace BitLayout

/-- Every embedded layout is a sequence, also in the sequences that are embedded. -/
def EmbedOnlySequences (slots : List Slot) : Prop :=
  ∀ slot ∈ flattenSlots slots, slot.embeddedKind? = none

instance (slots : List Slot) : Decidable (EmbedOnlySequences slots) :=
  inferInstanceAs (Decidable (∀ slot ∈ flattenSlots slots, slot.embeddedKind? = none))

/-- The steps to the last slot of a name, through sequences that are embedded. -/
inductive LastNamed (name : Text) : List Slot → List Step → Prop
  | here {front back : List Slot} {layout : Layout} (last : name ∉ namesOfSlots back) :
    LastNamed name (front ++ .named name layout :: back) [.slot front.length]
  | inside {front inner back : List Slot} {steps : List Step} (last : name ∉ namesOfSlots back)
    (below : LastNamed name inner steps) :
    LastNamed name (front ++ .embedded (.sequence inner) :: back) (.slot front.length :: steps)

section Slots

variable {front back : List Slot} {name : Text}

theorem EmbedOnlySequences.split (embed : EmbedOnlySequences (front ++ back)) :
    EmbedOnlySequences front ∧ EmbedOnlySequences back := by
  rw [EmbedOnlySequences, flattenSlots_append] at embed
  exact ⟨fun slot member => embed slot (List.mem_append_left _ member),
    fun slot member => embed slot (List.mem_append_right _ member)⟩

theorem EmbedOnlySequences.exists_inner {layout : Layout}
    (embed : EmbedOnlySequences [.embedded layout]) :
    ∃ inner, layout = .sequence inner ∧ EmbedOnlySequences inner := by
  cases layout with
  | sequence inner =>
    exact ⟨inner, rfl, by simpa [EmbedOnlySequences, flattenSlots, Layout.flattened] using embed⟩
  | _ => cases embed _ List.mem_cons_self

/-- More slots without the name do not matter. -/
theorem LastNamed.extend {steps : List Step} (last : LastNamed name front steps)
    (fresh : name ∉ namesOfSlots back) : LastNamed name (front ++ back) steps := by
  cases last with
  | @here front' back' layout last =>
    rw [List.append_assoc, List.cons_append]
    refine .here ?_
    rw [namesOfSlots_append, List.mem_append, not_or]
    exact ⟨last, fresh⟩
  | @inside front' inner back' steps last below =>
    rw [List.append_assoc, List.cons_append]
    refine .inside ?_ below
    rw [namesOfSlots_append, List.mem_append, not_or]
    exact ⟨last, fresh⟩

end Slots

/-- A slot of the name has read the value that the record has, and as many bits as are listed, if any
are. -/
def Reading.Writes (reading : Reading) (name : Text) (record : Entries) (entry : Option Integer) :
    Prop :=
  ∃ value after, reading.layout.decode reading.scope reading.reader = .ok (value, after) ∧
    record.field? name = some value ∧
    ∀ size, entry = some size → (after.position : Int) = reading.reader.position + size.toInt

/-- The last slot of a name writes the value that the record has, with as many bits as are listed. -/
def LastWrites (slots : List Slot) (scope : Scope) (r : BitReader) (record : Entries) (name : Text)
    (entry : Option Integer) : Prop :=
  ∃ steps reading, LastNamed name slots steps ∧
    Walk Reading.Hands ⟨.sequence slots, scope, r⟩ steps reading ∧ reading.Writes name record entry

/-- What is listed for slots tells of a reading: the same names, each with what its last slot does. -/
structure Tells (slots : List Slot) (scope : Scope) (r : BitReader) (record : Entries)
    (sizes : FieldSizes) : Prop where
  keys : record.keys = (sizes.map Prod.fst).map .text
  names : ∀ name ∈ namesOfSlots slots, name ∈ sizes.map Prod.fst
  last : ∀ name entry, (name, entry) ∈ sizes → LastWrites slots scope r record name entry

section Listing

variable {record fields : Entries} {sizes added : FieldSizes} {name : Text} {value : Value}
  {size : Option Integer}

/-- A value and a size under one name keep keys and listed names in step. -/
theorem keys_insert_eq (same : record.keys = (sizes.map Prod.fst).map .text) :
    (record.insert (.text name) value).keys = ((sizes.set name size).map Prod.fst).map .text := by
  have there : .text name ∈ record.keys ↔ name ∈ sizes.map Prod.fst := by
    rw [same]
    exact List.mem_map_of_injective fun _ _ => Value.text.inj
  by_cases listed : name ∈ sizes.map Prod.fst
  · rw [Entries.keys_insert_of_mem (there.mpr listed), FieldSizes.names_set_of_mem listed, same]
  · rw [Entries.insert_of_absent (mt there.mp listed), FieldSizes.set_of_absent listed,
      Entries.keys_append, same, List.map_append, List.map_append]
    rfl

theorem keys_merge_eq (same : record.keys = (sizes.map Prod.fst).map .text)
    (same' : fields.keys = (added.map Prod.fst).map .text) :
    (record.merge fields).keys = ((sizes.merge added).map Prod.fst).map .text := by
  induction added generalizing record sizes fields with
  | nil =>
    obtain rfl : fields = [] := List.map_eq_nil_iff.mp same'
    exact same
  | cons entry rest ih =>
    obtain ⟨name, size⟩ := entry
    cases fields with
    | nil => cases same'
    | cons field others =>
      obtain ⟨key, value⟩ := field
      obtain ⟨rfl, same_rest⟩ := List.cons.inj same'
      change ((record.insert (.text name) value).merge others).keys =
        (((sizes.set name size).merge rest).map Prod.fst).map .text
      exact ih (keys_insert_eq same) same_rest

end Listing

section Slots

variable {front back : List Slot} {scope : Scope} {r r' : BitReader} {record fields : Entries}
  {sizes : FieldSizes} {name : Text} {entry : Option Integer}

/-- What a slot has written stays if the slots behind it do not have the name, and do not change the
field. -/
theorem LastWrites.extend {final : Entries} (writes : LastWrites front scope r record name entry)
    (fresh : name ∉ namesOfSlots back) (kept : final.field? name = record.field? name) :
    LastWrites (front ++ back) scope r final name entry := by
  obtain ⟨steps, reading, last, walk, value, after, read, found, moved⟩ := writes
  refine ⟨steps, reading, last.extend fresh, ?_, value, after, read, kept.trans found, moved⟩
  cases walk with
  | here => cases last
  | step first rest => exact .step first.extend rest

/-- Padding adds nothing, to the record or to the list. -/
theorem Tells.padding {layout : Layout} {label : Option Text}
    (tells : Tells front scope r record sizes) :
    Tells (front ++ [.padding layout label]) scope r record sizes := by
  refine ⟨tells.keys, fun name listed => ?_, fun name entry member => ?_⟩
  · rw [namesOfSlots_append] at listed
    exact tells.names name (by simpa [namesOfSlots, Slot.names] using listed)
  · exact (tells.last name entry member).extend (by simp [namesOfSlots, Slot.names]) rfl

/-- A named slot takes over what is recorded and listed under its name. -/
theorem Tells.named {layout : Layout} {value : Value} (tells : Tells front scope r record sizes)
    (distinct : (sizes.map Prod.fst).Nodup) (read : decodeSlots front [] r = .ok (record, r'))
    (writes : Reading.Writes ⟨layout, some record, r'⟩ name (record.insert (.text name) value) entry) :
    Tells (front ++ [.named name layout]) scope r (record.insert (.text name) value)
      (sizes.set name entry) := by
  refine ⟨keys_insert_eq tells.keys, fun other listed => ?_, fun other size member => ?_⟩
  · rw [namesOfSlots_append] at listed
    rw [FieldSizes.mem_names_set]
    rcases List.mem_append.mp listed with before | here
    · exact Or.inr (tells.names other before)
    · exact Or.inl (by simpa [namesOfSlots, Slot.names] using here)
  · rcases FieldSizes.mem_set distinct member with ⟨rfl, rfl⟩ | ⟨different, member⟩
    · exact ⟨_, _, .here List.not_mem_nil, .step (.behind rfl read) (.here _), writes⟩
    · refine (tells.last other size member).extend ?_ ?_
      · simpa [namesOfSlots, Slot.names] using different
      · exact Entries.field?_insert_of_ne (Ne.symm different)

/-- An embedded sequence takes over all that is recorded and listed under its names. -/
theorem Tells.embedded {inner : List Slot} {added : FieldSizes}
    (tells : Tells front scope r record sizes) (distinct : (sizes.map Prod.fst).Nodup)
    (read : decodeSlots front [] r = .ok (record, r'))
    (below : Tells inner (some record) r' fields added) (keyed : fields.KeyedBy fun _ => True) :
    Tells (front ++ [.embedded (.sequence inner)]) scope r (record.merge fields)
      (sizes.merge added) := by
  have names_eq : namesOfSlots [.embedded (.sequence inner)] = namesOfSlots inner := by
    simp [namesOfSlots, Slot.names, Layout.mergedNames]
  refine ⟨keys_merge_eq tells.keys below.keys, fun name listed => ?_, fun name entry member => ?_⟩
  · rw [namesOfSlots_append, names_eq] at listed
    rw [FieldSizes.mem_names_merge]
    exact (List.mem_append.mp listed).imp (tells.names name) (below.names name)
  · rcases FieldSizes.mem_merge distinct member with inside | ⟨absent, before⟩
    · obtain ⟨steps, reading, last, walk, value, after, read_value, found, moved⟩ :=
        below.last name entry inside
      exact ⟨_, reading, .inside List.not_mem_nil last, .step (.behind rfl read) walk, value, after,
        read_value, keyed.extends_merge _ _ found, moved⟩
    · refine (tells.last name entry before).extend ?_ ?_
      · rw [names_eq]
        exact mt (below.names name) absent
      · have fresh : .text name ∉ fields.keys := by
          rw [below.keys]
          exact mt (List.mem_map_of_injective fun _ _ => Value.text.inj).mp absent
        rw [keyed.field?_merge, Entries.field?_eq_none_iff.mpr fresh, Option.none_or]

end Slots

/-- A reading moves by the size that is listed for the layout, if one is. -/
theorem Layout.position_of_listed {layout : Layout} {scope : Scope} {r r' : BitReader}
    {value : Value} {size : Integer} (wellFormed : layout.WellFormed) (valid : r.Valid)
    (read : layout.decode scope r = .ok (value, r'))
    (listed : layout.encodedBits.toOption = some size) :
    (r'.position : Int) = r.position + size.toInt := by
  have measured : layout.encodedBits = .ok size := toOption_eq_some_iff.mp listed
  have nonneg := nonneg_of_encodedBits wellFormed measured
  have has : layout.HasBits size.toInt.toNat := ⟨size, measured, (Int.toNat_of_nonneg nonneg).symm⟩
  have position := has.position_of_decode wellFormed valid read
  omega

/-- What is listed for a sequence tells of all its readings. -/
def Layout.Told : Layout → Prop
  | .sequence slots =>
    EmbedOnlySequences slots → WellFormedSlots slots → ∀ {scope r r' record}, r.Valid →
      decodeSlots slots [] r = .ok (record, r') →
      ∃ sizes, fieldSizesOfSlots [] slots = .ok sizes ∧ Tells slots scope r record sizes
  | _ => True

theorem told_sequence {slots : List Slot}
    (each : ∀ slot ∈ slots, ∀ layout, slot.layout? = some layout → layout.Told) :
    (Layout.sequence slots).Told := by
  intro embed wellFormed scope r r' record valid read
  -- From the front, so that each slot finds the record and the list of those before it.
  induction slots using List.reverseRecOn generalizing r' record with
  | nil =>
    cases read
    exact ⟨[], rfl, rfl, fun _ => nofun, fun _ _ => nofun⟩
  | append_singleton front slot ih =>
    obtain ⟨embed_front, embed_slot⟩ := embed.split
    obtain ⟨wellFormed_front, wellFormed_slot⟩ := wellFormedSlots_append.mp wellFormed
    obtain ⟨before, r₁, read_front, read_slot⟩ := decodeSlots_append_eq_ok_iff.mp read
    obtain ⟨sizes, listed, tells⟩ := ih (fun slot member => each slot (List.mem_append_left _ member))
      embed_front wellFormed_front read_front
    have read_before : (Layout.sequence front).decode scope r = .ok (.dict before, r₁) :=
      Layout.decode_sequence_eq_ok_iff.mpr ⟨before, read_front, rfl⟩
    have valid₁ := (Layout.passes_of_decode valid read_before).valid valid
    have distinct : (sizes.map Prod.fst).Nodup := by
      have once := (Layout.keyedBy_of_decode read_before).once
      rw [tells.keys] at once
      exact once.of_map _
    obtain ⟨layout, value, _, record₁, same, read_value, stored, finished⟩ :=
      decodeSlots_cons_eq_ok_iff.mp read_slot
    cases finished
    have inSlot := each slot (List.mem_append_right _ List.mem_cons_self) layout same
    rw [fieldSizesOfSlots_append, listed]
    change ∃ sizes', fieldSizesOfSlots sizes [slot] = .ok sizes' ∧ _
    cases slot with
    | named name layout =>
      cases same
      cases stored
      refine ⟨sizes.set name layout.encodedBits.toOption, ?_, tells.named distinct read_front ?_⟩
      · rw [fieldSizesOfSlots, Layout.sizeEntry_eq wellFormed_slot.1.2.2]
        rfl
      · exact ⟨value, r', read_value, Entries.field?_insert_self, fun size listed =>
          Layout.position_of_listed wellFormed_slot.1.2.2 valid₁ read_value listed⟩
    | embedded layout =>
      cases same
      obtain ⟨inner, rfl, embed_inner⟩ := embed_slot.exists_inner
      obtain ⟨fields, read_inner, rfl⟩ := Layout.decode_sequence_eq_ok_iff.mp read_value
      cases stored
      obtain ⟨added, listed_inner, below⟩ :=
        inSlot embed_inner wellFormed_slot.1.2 valid₁ read_inner
      refine ⟨sizes.merge added, ?_, tells.embedded distinct read_front below
        (Layout.keyedBy_of_decode read_value)⟩
      rw [fieldSizesOfSlots, Layout.embeddedSizes, listed_inner]
      rfl
    | padding layout label =>
      cases stored
      exact ⟨sizes, rfl, tells.padding⟩
    | foreign => cases same

theorem Layout.told (layout : Layout) : layout.Told := by
  induction layout using Layout.induction with
  | sequence slots ih => exact told_sequence ih
  | _ => trivial

namespace Layout

/-- The fields for which sizes are listed are those of the decoded record. In a well-formed sequence
that embeds sequences only, the names of the list are the keys of every record that is decoded, in
the same order, whichever names come twice. The value of each of them was read by the last slot of
that name, and if a size is listed, this slot used as many bits. -/
theorem fieldSizes_of_decodeBytes {slots : List Slot} {data : List UInt8} {strict : Bool}
    {value : Value} (wellFormed : (sequence slots).WellFormed) (embed : EmbedOnlySequences slots)
    (decoded : (sequence slots).decodeBytes data strict = .ok value) :
    ∃ (record : Entries) (sizes : FieldSizes), value = .dict record ∧
      (sequence slots).fieldSizes = .ok sizes ∧ record.keys = (sizes.map Prod.fst).map .text ∧
      ∀ name entry, (name, entry) ∈ sizes →
        LastWrites slots none (.ofBytes data) record name entry := by
  obtain ⟨r, read⟩ := read_of_decodeBytes decoded
  obtain ⟨record, read_slots, rfl⟩ := decode_sequence_eq_ok_iff.mp read
  have valid := BitReader.valid_ofBytes data
  obtain ⟨sizes, listed, tells⟩ := told (.sequence slots) embed wellFormed valid read_slots
  exact ⟨record, sizes, rfl, listed, tells.keys, tells.last⟩

/-- A count and a mark, an embedded sequence with a longer count and as many bytes, and a shorter
mark. -/
def corrected : List Slot :=
  [.named "count" byte, .named "mark" byte,
    .embedded (.sequence [.named "count" (.wideField 16), .padding (.padding 8) none,
      .named "bytes" (.byteSlice (.field "count"))]),
    .named "mark" (.bitField 4)]

theorem fieldSizes_of_decodeBytes_corrected :
    (sequence corrected).WellFormed ∧ EmbedOnlySequences corrected ∧
      (sequence corrected).decodeBytes [9, 1, 0, 2, 0xFF, 7, 8, 0x50] true =
        .ok (.dict [(.text "count", .int 2), (.text "mark", .int 5),
          (.text "bytes", .ofBytes [7, 8])]) ∧
      (sequence corrected).fieldSizes =
        .ok [("count", some 16), ("mark", some 4), ("bytes", none)] ∧
      LastWrites corrected none (.ofBytes [9, 1, 0, 2, 0xFF, 7, 8, 0x50])
        [(.text "count", .int 2), (.text "mark", .int 5), (.text "bytes", .ofBytes [7, 8])]
        "count" (some 16) := by
  have wellFormed : (sequence corrected).WellFormed := by decide +kernel
  have embed : EmbedOnlySequences corrected := by decide +kernel
  have decoded : (sequence corrected).decodeBytes [9, 1, 0, 2, 0xFF, 7, 8, 0x50] true =
      .ok (.dict [(.text "count", .int 2), (.text "mark", .int 5),
        (.text "bytes", .ofBytes [7, 8])]) := by cbv
  have measured : (sequence corrected).fieldSizes =
      .ok [("count", some 16), ("mark", some 4), ("bytes", none)] := by rfl
  obtain ⟨record, sizes, same, listed, -, last⟩ :=
    fieldSizes_of_decodeBytes wellFormed embed decoded
  cases same
  cases measured.symm.trans listed
  exact ⟨wellFormed, embed, decoded, measured, last "count" (some 16) List.mem_cons_self⟩

end Layout

end BitLayout
