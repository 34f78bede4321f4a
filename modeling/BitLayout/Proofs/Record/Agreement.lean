import BitLayout.Proofs.Decoding.Extension
import BitLayout.Proofs.Decoding.Parts
import BitLayout.Proofs.Encoding.Filling
import BitLayout.Proofs.Record.Objects
import BitLayout.Proofs.Record.Run
import BitLayout.Proofs.Reencoding

/-!
# Records encode to what their values encode to

A record that is read from bytes has a field for everything that was decoded, and besides these the
fields that only other choices of its layout would have read, filled with their defaults. If its
types suit the layout, the decoded values are of the declared types and a library takes them as they
stand, so that the record fills the decoded one and is written to the same bytes, whatever the
defaults are.

## Main definitions

* `Layout.Reads`: a value that a layout can read somewhere
* `Layout.parts`: the layouts that may put a field into a record
* `FieldType.Suits`: a type of the values that a layout reads, kind for kind

## Main results

* `Layout.exists_part_of_decode`: where the fields of a decoded record come from
* `FieldType.Suits.typed`: what a suiting layout reads is of the declared types
* `FieldType.Suits.fills_of_keeps`: taking it as it stands only adds fields
* `RecordLibrary.toBytes_of_fromBytes`: a record that was read is written as its decoded value is
-/

namespace BitLayout

/-- A value that a layout reads in some scope at some place. -/
def Layout.Reads (layout : Layout) (value : Value) : Prop :=
  ∃ scope r r', layout.decode scope r = .ok (value, r')

mutual

/-- The layouts that may put a field into the record around an embedded layout, with its name. -/
def Layout.parts : Layout → List (Text × Layout)
  | .sequence slots => partsOfSlots slots
  | .branch _ cases otherwise =>
    partsOfCases cases ++
      match otherwise with
      | none => []
      | some layout => layout.parts
  | _ => []

/-- The layout of a named slot, or those that an embedded one brings in. -/
def Slot.parts : Slot → List (Text × Layout)
  | .named name layout => [(name, layout)]
  | .embedded layout => layout.parts
  | .padding .. => []
  | .foreign .. => []

/-- The layouts that may put a field into the record of slots. -/
def partsOfSlots : List Slot → List (Text × Layout)
  | [] => []
  | slot :: rest => slot.parts ++ partsOfSlots rest

/-- The layouts that cases may bring in. -/
def partsOfCases : List (Integer × Layout) → List (Text × Layout)
  | [] => []
  | (_, layout) :: rest => layout.parts ++ partsOfCases rest

end

section Parts

variable {name : Text} {found : Value} {r r' : BitReader}

theorem parts_subset_cases {cases : List (Integer × Layout)} {key : Integer} {layout : Layout}
    (member : (key, layout) ∈ cases) : layout.parts ⊆ partsOfCases cases := by
  induction cases with
  | nil => cases member
  | cons entry rest ih =>
    rw [partsOfCases]
    rcases List.mem_cons.mp member with rfl | member
    · exact List.subset_append_left _ _
    · exact List.Subset.trans (ih member) (List.subset_append_right _ _)

/-- What an alternative may bring in, its branch may. -/
theorem Layout.Alternative.parts_subset {discriminant : Text} {cases : List (Integer × Layout)}
    {otherwise : Option Layout} {layout : Layout}
    (alternative : Alternative cases otherwise layout) :
    layout.parts ⊆ (Layout.branch discriminant cases otherwise).parts := by
  rcases alternative with ⟨key, member⟩ | rfl
  · have within := parts_subset_cases member
    cases otherwise <;> exact List.Subset.trans within (List.subset_append_left _ _)
  · exact List.subset_append_right _ _

/-- A field that is found after a slot was there before or comes from a part of the slot. -/
theorem Slot.exists_part_of_store {slot : Slot} {layout : Layout} {value : Value}
    {record record' : Entries} (same : slot.layout? = some layout) (reads : layout.Reads value)
    (inside : ∀ fields, value = .dict fields → Entries.field? fields name = some found →
      ∃ part, (name, part) ∈ layout.parts ∧ part.Reads found)
    (stored : slot.store record value = some record') (there : record'.field? name = some found) :
    record.field? name = some found ∨ ∃ part, (name, part) ∈ slot.parts ∧ part.Reads found := by
  cases slot with
  | named other layout =>
    cases same
    cases stored
    by_cases equal : other = name
    · subst equal
      rw [Entries.field?_insert_self] at there
      cases there
      exact Or.inr ⟨layout, List.mem_singleton.mpr rfl, reads⟩
    · rw [Entries.field?_insert_of_ne equal] at there
      exact Or.inl there
  | embedded layout =>
    cases same
    cases value with
    | dict fields =>
      cases stored
      obtain ⟨_, _, _, read⟩ := reads
      rw [(Layout.keyedBy_of_decode read).field?_merge, Option.or_eq_some_iff] at there
      rcases there with there | ⟨-, there⟩
      · exact Or.inr (inside fields rfl there)
      · exact Or.inl there
    | _ => cases stored
  | padding layout label =>
    cases stored
    exact Or.inl there
  | foreign => cases same

/-- A field that is found behind slots was there before or comes from a part of one of them. -/
theorem exists_part_of_decodeSlots {slots : List Slot}
    (inSlots : ∀ slot ∈ slots, ∀ layout, slot.layout? = some layout →
      ∀ fields, layout.Reads (.dict fields) → Entries.field? fields name = some found →
        ∃ part, (name, part) ∈ layout.parts ∧ part.Reads found)
    {record final : Entries} (read : decodeSlots slots record r = .ok (final, r'))
    (there : final.field? name = some found) :
    record.field? name = some found ∨
      ∃ part, (name, part) ∈ partsOfSlots slots ∧ part.Reads found := by
  induction slots generalizing record r with
  | nil =>
    cases read
    exact Or.inl there
  | cons slot rest ih =>
    obtain ⟨inSlot, inRest⟩ := List.forall_mem_cons.mp inSlots
    obtain ⟨layout, value, r₁, record₁, same, read_first, stored, read_rest⟩ :=
      decodeSlots_cons_eq_ok_iff.mp read
    have reads : layout.Reads value := ⟨_, _, _, read_first⟩
    rcases ih inRest read_rest with there₁ | ⟨part, member, reads_part⟩
    · have inside : ∀ fields, value = .dict fields → Entries.field? fields name = some found →
          ∃ part, (name, part) ∈ layout.parts ∧ part.Reads found := by
        rintro fields rfl there
        exact inSlot layout same fields reads there
      refine (Slot.exists_part_of_store same reads inside stored there₁).imp_right ?_
      rintro ⟨part, member, reads_part⟩
      exact ⟨part, List.mem_append_left _ member, reads_part⟩
    · exact Or.inr ⟨part, List.mem_append_right _ member, reads_part⟩

/-- Every field of a decoded record is read by a part of its layout with the name of the field. -/
theorem Layout.exists_part_of_decode {layout : Layout} {fields : Entries}
    (reads : layout.Reads (.dict fields)) (there : fields.field? name = some found) :
    ∃ part, (name, part) ∈ layout.parts ∧ part.Reads found := by
  obtain ⟨scope, r, r', read⟩ := reads
  induction layout using Layout.induction generalizing scope r r' fields with
  | abstract => cases read
  | sequence slots ih =>
    obtain ⟨record, read_slots, same⟩ := decode_sequence_eq_ok_iff.mp read
    cases same
    -- A sequence starts without any field.
    apply (exists_part_of_decodeSlots _ read_slots there).resolve_left (by simp)
    rintro slot member layout same fields ⟨scope, r, r', read⟩ there
    exact ih slot member layout same there scope r r' read
  | array length element ih =>
    obtain ⟨count, items, -, -, same⟩ := decode_array_eq_ok_iff.mp read
    cases same
  | branch discriminant cases otherwise ih =>
    obtain ⟨key, layout, -, chosen, read_chosen⟩ := decode_branch_eq_ok_iff.mp read
    have alternative := alternative_of_select chosen
    obtain ⟨part, member, reads⟩ := ih layout alternative there scope r r' read_chosen
    exact ⟨part, alternative.parts_subset member, reads⟩
  | bitField width | wideField width =>
    rw [decode] at read
    obtain ⟨⟨n, r₁⟩, -, same⟩ := bind_eq_ok_iff.mp read
    cases same
  | byteSlice length =>
    obtain ⟨raw, -, same⟩ := decode_byteSlice_eq_ok_iff.mp read
    cases same
  | text length encoding =>
    obtain ⟨raw, t, -, -, same⟩ := decode_text_eq_ok_iff.mp read
    cases same
  | padding width =>
    obtain ⟨-, -, same, -⟩ := decode_padding_eq_ok_iff.mp read
    cases same

end Parts

/-- A type of the same kind as a layout, with types of the same kind inside it. The type of a field
has to suit every part of a sequence that comes under its name. Nothing is asked of defaults. -/
inductive FieldType.Suits : FieldType → Layout → Prop
  | bitField {width : Integer} : FieldType.int.Suits (.bitField width)
  | wideField {width : Integer} : FieldType.int.Suits (.wideField width)
  | unsignedBitField {bits : Nat} {width : Integer} :
    (FieldType.unsigned bits).Suits (.bitField width)
  | unsignedWideField {bits : Nat} {width : Integer} :
    (FieldType.unsigned bits).Suits (.wideField width)
  | byteSlice {length : Length} : FieldType.bytes.Suits (.byteSlice length)
  | fixedByteSlice {count : Nat} {length : Length} :
    (FieldType.fixedBytes count).Suits (.byteSlice length)
  | text {length : Length} {encoding : Text} : FieldType.text.Suits (.text length encoding)
  | array {item : FieldType} {length : Length} {element : Layout} (each : item.Suits element) :
    (FieldType.list item).Suits (.array length element)
  | record {name : Text} {fields : List Field} {layout : Option Layout} {slots : List Slot}
    (each : ∀ field ∈ fields, ∀ part, (field.name, part) ∈ partsOfSlots slots →
      field.type.Suits part) :
    (FieldType.record (.mk name fields layout)).Suits (.sequence slots)
  | dict {slots : List Slot} : FieldType.dict.Suits (.sequence slots)
  /-- A field whose layout depends on a choice. -/
  | branch {type : FieldType} {discriminant : Text} {cases : List (Integer × Layout)}
    {otherwise : Option Layout}
    (each : ∀ layout, Layout.Alternative cases otherwise layout → type.Suits layout) :
    type.Suits (.branch discriminant cases otherwise)
  | optional {content : FieldType} {layout : Layout} (suits : content.Suits layout) :
    content.optional.Suits layout
  /-- Padding with a name reads nothing. -/
  | padding {content : FieldType} {width : Integer} : content.optional.Suits (.padding width)
  | any {layout : Layout} : FieldType.any.Suits layout

section Library

variable {value value' : Value}

/-- What a suiting layout reads is of the kind of the type. -/
theorem FieldType.Suits.typed {type : FieldType} {layout : Layout} (suits : type.Suits layout)
    (reads : layout.Reads value) : type.Typed value := by
  induction suits generalizing value with
  | bitField | wideField =>
    obtain ⟨scope, r, r', read⟩ := reads
    rw [Layout.decode] at read
    obtain ⟨⟨n, r₁⟩, -, same⟩ := bind_eq_ok_iff.mp read
    cases same
    exact .int
  | unsignedBitField | unsignedWideField =>
    obtain ⟨scope, r, r', read⟩ := reads
    rw [Layout.decode] at read
    obtain ⟨⟨n, r₁⟩, -, same⟩ := bind_eq_ok_iff.mp read
    cases same
    exact .unsigned
  | byteSlice =>
    obtain ⟨scope, r, r', read⟩ := reads
    obtain ⟨raw, -, rfl⟩ := Layout.decode_byteSlice_eq_ok_iff.mp read
    exact .bytes
  | fixedByteSlice =>
    obtain ⟨scope, r, r', read⟩ := reads
    obtain ⟨raw, -, rfl⟩ := Layout.decode_byteSlice_eq_ok_iff.mp read
    exact .fixedBytes
  | text =>
    obtain ⟨scope, r, r', read⟩ := reads
    obtain ⟨raw, t, -, -, rfl⟩ := Layout.decode_text_eq_ok_iff.mp read
    exact .text
  | array _ each =>
    obtain ⟨scope, r, r', read⟩ := reads
    obtain ⟨count, items, -, read_items, rfl⟩ := Layout.decode_array_eq_ok_iff.mp read
    exact .list (forall_of_decodeItems
      (fun read_item => each ⟨none, _, _, read_item⟩) read_items)
  | record _ each =>
    obtain ⟨scope, r, r', read⟩ := id reads
    obtain ⟨entries, -, rfl⟩ := Layout.decode_sequence_eq_ok_iff.mp read
    refine .record fun field declared value found => ?_
    obtain ⟨part, member, reads_part⟩ := Layout.exists_part_of_decode reads found
    exact each field declared part member reads_part
  | dict =>
    obtain ⟨scope, r, r', read⟩ := reads
    obtain ⟨entries, -, rfl⟩ := Layout.decode_sequence_eq_ok_iff.mp read
    exact .dict
  | branch _ each =>
    obtain ⟨scope, r, r', read⟩ := reads
    obtain ⟨key, layout, -, chosen, read_chosen⟩ := Layout.decode_branch_eq_ok_iff.mp read
    exact each layout (Layout.alternative_of_select chosen) ⟨scope, r, r', read_chosen⟩
  | optional _ inside => exact .optional (inside reads)
  | padding =>
    obtain ⟨scope, r, r', read⟩ := reads
    obtain ⟨-, -, rfl, -⟩ := Layout.decode_padding_eq_ok_iff.mp read
    exact .nothing
  | any => exact .any

/-- What is taken as it stands only gets more fields in its records, if a suiting layout reads it. -/
theorem FieldType.Suits.fills_of_keeps {type : FieldType} {layout : Layout}
    (suits : type.Suits layout) (reads : layout.Reads value) (keeps : type.Keeps value value') :
    value'.Fills value := by
  -- Along the types. Only lists and records have others inside, and an optional type or a choice
  -- asks for the same value again.
  induction suits generalizing value value' with
  | bitField | wideField | unsignedBitField | unsignedWideField | byteSlice | fixedByteSlice | text
    | dict | any =>
    cases keeps with
    | leaf => exact .same _
  | array _ each =>
    cases keeps with
    | leaf leaf => exact leaf.elim
    | @list _ items items' length kept =>
      obtain ⟨scope, r, r', read⟩ := reads
      obtain ⟨count, _, -, read_items, same⟩ := Layout.decode_array_eq_ok_iff.mp read
      cases same
      have reads_each := forall_of_decodeItems
        (fun read_item => (⟨none, _, _, read_item⟩ : Layout.Reads _ _)) read_items
      refine .list (List.forall₂_iff_get.mpr ⟨length.symm, fun index bound' bound => ?_⟩)
      exact each (reads_each _ (List.getElem_mem bound)) (kept index _ _
        (List.getElem?_eq_getElem bound) (List.getElem?_eq_getElem bound'))
  | record _ each =>
    cases keeps with
    | leaf leaf => exact leaf.elim
    | @record _ _ _ entries record known names given _ =>
      refine .dict fun name => ?_
      cases found : Entries.field? entries name with
      | none => exact .nothing _
      | some value =>
        obtain ⟨field, declared, same⟩ := known (.text name)
          (List.mem_map_of_mem (Entries.mem_of_field? found))
        cases same
        obtain ⟨value', there⟩ := Entries.exists_field?_of_names names declared
        -- It is taken for the first field of its name.
        obtain ⟨index, field', listed, same_name, at_index⟩ :=
          Entries.exists_getElem?_of_field? names there
        rw [← same_name] at found
        obtain ⟨part, member, reads_part⟩ := Layout.exists_part_of_decode reads found
        rw [there]
        exact each field' (List.mem_of_getElem? listed) part member reads_part
          (given index field' _ value value' listed at_index found)
  | branch _ each =>
    obtain ⟨scope, r, r', read⟩ := reads
    obtain ⟨key, layout, -, chosen, read_chosen⟩ := Layout.decode_branch_eq_ok_iff.mp read
    exact each layout (Layout.alternative_of_select chosen) ⟨scope, r, r', read_chosen⟩ keeps
  | optional _ inside =>
    cases keeps with
    | leaf leaf => exact leaf.elim
    | nothing => exact .nothing _
    | optional _ kept => exact inside reads kept
  | padding =>
    obtain ⟨scope, r, r', read⟩ := reads
    obtain ⟨-, -, rfl, -⟩ := Layout.decode_padding_eq_ok_iff.mp read
    exact .nothing _

end Library

namespace RecordLibrary

variable {library : RecordLibrary} {memory : Memory} {model : Model} {layout : Layout}

/-- A record that was read from a buffer is written to the bytes that the value decoded from the
buffer encodes to. Fields that the decoded value lacks are filled with their defaults, whatever these
are, and change nothing. -/
theorem toBytes_of_fromBytes (takesTyped : library.TakesTyped)
    (own : model.expectLayout = .ok layout) (suits : (FieldType.record model).Suits layout)
    (wellFormed : layout.WellFormed) (distinct : layout.DistinctNames)
    (lossless : layout.LosslessTexts) {data : Value} {raw : List UInt8}
    (buffer : data.toBuffer memory = .ok raw) (room : memory.hasRoom (8 * raw.length) = true)
    {strict : Bool} {s s' : library.State} (reached : library.Reached s) {record : library.Record}
    (read : library.fromBytes memory model data strict s = (.ok record, s')) :
    ∃ value bytes, layout.decodeBytes raw false = .ok value ∧
      layout.encodeWithin memory value = .ok bytes ∧
      library.toBytes memory model s' record = .ok bytes := by
  obtain ⟨value, decoded, created⟩ := fromBytes_eq_ok_iff.mp read
  have decoded : layout.decodeBytes raw strict = .ok value := by
    rw [Model.decodeBuffer, own, buffer] at decoded
    exact mapError_eq_ok_iff.mp decoded
  obtain ⟨r, read_value⟩ := Layout.read_of_decodeBytes decoded
  have reads : layout.Reads value := ⟨_, _, _, read_value⟩
  have fills := suits.fills_of_keeps reads (takesTyped reached created (suits.typed reads))
  -- Encoding restores the bits of the decoded value, and what fills it is written just like it.
  obtain ⟨w, wrote, -⟩ := Layout.encodeWithin_of_read wellFormed distinct lossless room read_value
  obtain ⟨w', wrote_bits, bytes_eq⟩ := map_eq_ok_iff.mp wrote
  have wrote_record := Layout.encode_of_fills wellFormed fills (Scope.supports_none none _) wrote_bits
  refine ⟨value, w.toBytes, ?_, wrote, ?_⟩
  · rw [Layout.decodeBytes_false, read_value]
    rfl
  · rw [toBytes, own]
    exact map_eq_ok_iff.mpr ⟨w', wrote_record, bytes_eq⟩

end RecordLibrary

/-- A tag or a title, depending on the kind, and entries that are narrow or wide. -/
def Layout.packet : Layout :=
  .sequence
    [.named "kind" (.bitField 2), .named "count" (.bitField 6),
      .embedded (.branch "kind" [(0, .sequence [.named "tag" (.byteSlice (.literal 1))]),
        (1, .sequence [.named "title" (.text (.literal 2) "ascii")])] none),
      .named "entries" (.array (.field "count")
        (.sequence [.named "wide" (.bitField 1), .padding (.padding 3) none,
          .embedded (.branch "wide" [(0, .sequence [.named "low" (.bitField 4)])]
            (some (.sequence [.named "high" (.wideField 36)])))]))]

namespace Model

/-- An entry, of which one number is missing. -/
def packetEntry : Model :=
  .mk "Entry"
    [.mk "wide" .int none, .mk "low" (.optional (.unsigned 4)) (some .null),
      .mk "high" (.optional .int) (some .null)] none

/-- A packet, of which the tag or the title is missing. -/
def packet : Model :=
  .mk "Packet"
    [.mk "kind" .int none, .mk "count" (.unsigned 6) none,
      .mk "entries" (.list (.record packetEntry)) none,
      .mk "tag" (.optional .bytes) (some .null), .mk "title" (.optional .text) (some .null)]
    (some .packet)

/-- A title and two entries. -/
def packetEntries : Entries :=
  [(.text "kind", .int 1), (.text "count", .int 2), (.text "title", .text "Hi"),
    (.text "entries", .list
      [.dict [(.text "wide", .int 0), (.text "low", .int 9)],
        .dict [(.text "wide", .int 1), (.text "high", .int 0x123456789)]])]

/-- The same with nothing for what is missing. -/
def packetRecord : Entries :=
  [(.text "kind", .int 1), (.text "count", .int 2),
    (.text "entries", .list
      [.dict [(.text "wide", .int 0), (.text "low", .int 9), (.text "high", .null)],
        .dict [(.text "wide", .int 1), (.text "low", .null), (.text "high", .int 0x123456789)]]),
    (.text "tag", .null), (.text "title", .text "Hi")]

theorem suits_packetEntry : (FieldType.record packetEntry).Suits (.sequence
    [.named "wide" (.bitField 1), .padding (.padding 3) none,
      .embedded (.branch "wide" [(0, .sequence [.named "low" (.bitField 4)])]
        (some (.sequence [.named "high" (.wideField 36)])))]) := by
  refine .record fun field declared part member => ?_
  simp only [List.mem_cons, List.not_mem_nil, or_false] at declared
  rcases declared with rfl | rfl | rfl <;>
    simp +decide [Field.name, partsOfSlots, Slot.parts, Layout.parts, partsOfCases] at member <;>
    subst member
  · exact .bitField
  · exact .optional .unsignedBitField
  · exact .optional .wideField

theorem suits_packet : (FieldType.record packet).Suits .packet := by
  refine .record fun field declared part member => ?_
  simp only [List.mem_cons, List.not_mem_nil, or_false] at declared
  rcases declared with rfl | rfl | rfl | rfl | rfl <;>
    simp +decide [Field.name, partsOfSlots, Slot.parts, Layout.parts, partsOfCases] at member <;>
    subst member
  · exact .bitField
  · exact .unsignedBitField
  · exact .array suits_packetEntry
  · exact .optional .byteSlice
  · exact .optional .text

end Model

namespace RecordLibrary

open Model in
/-- Bits are set in the padding of the first entry, and a byte follows the packet. -/
theorem toBytes_of_fromBytes_packet :
    converting.TakesTyped ∧ packet.expectLayout = .ok .packet ∧
      (FieldType.record packet).Suits .packet ∧ Layout.packet.WellFormed ∧
      Layout.packet.DistinctNames ∧ Layout.packet.LosslessTexts ∧
      converting.Reached converting.start ∧
      ∃ s', converting.fromBytes .ordinary packet
          (.ofBytes [0x42, 0x48, 0x69, 0x59, 0x81, 0x23, 0x45, 0x67, 0x89, 0xFF]) false
          converting.start = (.ok (2 : Nat), s') ∧
        converting.dump s' (2 : Nat) = packetRecord ∧
        converting.toBytes .ordinary packet s' (2 : Nat) =
          .ok [0x42, 0x48, 0x69, 0x09, 0x81, 0x23, 0x45, 0x67, 0x89] ∧
        ∃ value, Layout.packet.decodeBytes
            [0x42, 0x48, 0x69, 0x59, 0x81, 0x23, 0x45, 0x67, 0x89, 0xFF] false = .ok value ∧
          Layout.packet.encodeWithin .ordinary value =
            .ok [0x42, 0x48, 0x69, 0x09, 0x81, 0x23, 0x45, 0x67, 0x89] := by
  have wellFormed : Layout.packet.WellFormed := by decide +kernel
  have distinct : Layout.packet.DistinctNames := by decide +kernel
  have ascii : Layout.HasPlainText (.text (.literal 2) "ascii") := ⟨.ascii, by decide +kernel, rfl⟩
  have lossless : Layout.packet.LosslessTexts := Layout.losslessTexts_of_plain
    ⟨trivial, trivial, trivial, ⟨trivial, ⟨⟨trivial, trivial, trivial⟩,
      ⟨trivial, ascii, trivial⟩, trivial⟩, trivial⟩,
      ⟨trivial, trivial, trivial, trivial,
        ⟨trivial, ⟨⟨trivial, trivial, trivial⟩, trivial⟩, trivial, trivial, trivial⟩, trivial⟩,
      trivial⟩
  have decoded : packet.decodeBuffer .ordinary
      (.ofBytes [0x42, 0x48, 0x69, 0x59, 0x81, 0x23, 0x45, 0x67, 0x89, 0xFF]) false =
        .ok (.dict packetEntries) := by cbv
  let s' := (converting.create packet (.plain (.dict packetEntries)) converting.start).2
  have made : converting.create packet (.plain (.dict packetEntries)) converting.start =
      (.ok (2 : Nat), s') := Prod.ext (by rfl) rfl
  have read : converting.fromBytes .ordinary packet
      (.ofBytes [0x42, 0x48, 0x69, 0x59, 0x81, 0x23, 0x45, 0x67, 0x89, 0xFF]) false
      converting.start = (.ok (2 : Nat), s') := fromBytes_eq_ok_iff.mpr ⟨_, decoded, made⟩
  have dumped : converting.dump s' (2 : Nat) = packetRecord := by rfl
  have wrote : converting.toBytes .ordinary packet s' (2 : Nat) =
      .ok [0x42, 0x48, 0x69, 0x09, 0x81, 0x23, 0x45, 0x67, 0x89] := by
    unfold RecordLibrary.toBytes
    rw [dumped]
    cbv
  obtain ⟨value, bytes, decoded, encoded, same⟩ := toBytes_of_fromBytes takesTyped_converting rfl
    suits_packet wellFormed distinct lossless rfl (by decide +kernel) .start read
  rw [wrote] at same
  cases same
  exact ⟨takesTyped_converting, rfl, suits_packet, wellFormed, distinct, lossless, .start, s', read,
    dumped, wrote, value, decoded, encoded⟩

end RecordLibrary

end BitLayout
