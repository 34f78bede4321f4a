import BitLayout.Proofs.Decoding.Extension
import BitLayout.Proofs.Decoding.Parts
import BitLayout.Proofs.Record.Mirror
import BitLayout.Proofs.Record.Objects
import BitLayout.Proofs.RoundTrip
import BitLayout.Proofs.Value.Equality

/-!
# Records lose nothing

A record whose model mirrors its layout is read back from the bytes that it is written to, whatever
steps made it. The decoder gives an equal value, with the fields in the order of the slots. Such a
value has nothing in it that would be converted, and it is within the bounds, so that the library
takes it as it stands.

## Main results

* `FieldType.Mirrors.keeps_of_equals`: what was decoded and equals a value within the bounds is taken
  as it stands
* `RecordLibrary.fromBytes_of_toBytes`: what any run of steps leaves is read back from its bytes
-/

namespace BitLayout

section Mirror

variable {name : Text → Prop}

mutual

/-- A type that mirrors a layout takes whatever equals one of its values for this value. -/
theorem FieldType.Mirrors.keeps_of_equals {type : FieldType} {layout : Layout}
    (mirror : type.Mirrors layout) {value value' : Value} (holds : type.Holds value)
    (made : value'.MadeOf Value.IsBare name) (equal : value'.equals value = true) :
    type.Keeps value' value := by
  match mirror with
  | .bitField | .wideField =>
    cases holds with
    | unsigned =>
      rw [made.int_of_equals equal]
      exact .leaf trivial
  | .byteSlice =>
    cases holds with
    | fixedBytes =>
      rw [made.bytes_of_equals equal]
      exact .leaf trivial
  | .array content =>
    cases holds with
    | @list _ items held =>
      obtain ⟨items', rfl, made_items, equal_items⟩ := made.list_of_equals equal
      have pairs := Value.equalItems_iff_forall₂.mp equal_items
      refine .list pairs.length_eq fun index value' value there' there => ?_
      obtain ⟨bound', rfl⟩ := List.getElem?_eq_some_iff.mp there'
      obtain ⟨bound, rfl⟩ := List.getElem?_eq_some_iff.mp there
      exact content.keeps_of_equals (held _ (List.getElem_mem bound))
        (made_items _ (List.getElem_mem bound')) (pairs.get bound' bound)
  | @FieldType.Mirrors.sequence _ fields _ _ _ stores same =>
    cases holds with
    | @record _ _ _ record distinct names held =>
      obtain ⟨entries', rfl, keyed', made_each, length, equal_each⟩ := made.dict_of_equals equal
      have keyed : record.KeyedBy fun _ => True := Entries.keyedBy_of_names distinct names
      have sameKeys := Entries.keys_perm_of_equalEntries keyed' keyed length equal_each
      refine .record (fun key member => ?_) names
        (fun index field key value' value listed there found' => ?_)
        fun index field key value listed there absent => ?_
      · have there := sameKeys.mem_iff.mp member
        rw [names] at there
        obtain ⟨field, listed, same_key⟩ := List.mem_map.mp there
        exact ⟨field, listed, same_key.symm⟩
      · have member := List.mem_of_getElem? listed
        have found := Entries.field?_of_getElem? distinct names listed there
        obtain ⟨other, found_other, equal_value⟩ :=
          Entries.exists_field?_of_equalEntries keyed' keyed length equal_each found
        obtain rfl : other = value' := Option.some.inj (found_other.symm.trans found')
        exact stores.keeps_of_equals (same.mem_iff.mp member) (held field member value found)
          (made_each _ (Entries.mem_of_field? found')) equal_value
      · have found := Entries.field?_of_getElem? distinct names listed there
        obtain ⟨other, found_other, -⟩ :=
          Entries.exists_field?_of_equalEntries keyed' keyed length equal_each found
        rw [absent] at found_other
        cases found_other

theorem FieldsMirror.keeps_of_equals {fields : List Field} {slots : List Slot}
    (mirror : FieldsMirror fields slots) {field : Field} (member : field ∈ fields)
    {value value' : Value} (holds : field.type.Holds value) (made : value'.MadeOf Value.IsBare name)
    (equal : value'.equals value = true) : field.type.Keeps value' value := by
  match mirror with
  | .nil => cases member
  | .named content later =>
    rcases List.mem_cons.mp member with rfl | member
    · exact content.keeps_of_equals holds made equal
    · exact later.keeps_of_equals member holds made equal
  | .embedded merged later =>
    rcases List.mem_append.mp member with member | member
    · exact merged.keeps_of_equals member holds made equal
    · exact later.keeps_of_equals member holds made equal
  | .padding later => exact later.keeps_of_equals member holds made equal

end

end Mirror

namespace RecordLibrary

variable {library : RecordLibrary} {model : Model} {layout : Layout} {memory : Memory}

/-- A record that any run of steps leaves, if it can be written at all, is read back from its bytes
with just the values that it has. -/
theorem fromBytes_of_toBytes (enforces : library.Enforces) (own : model.expectLayout = .ok layout)
    (mirror : (FieldType.record model).Mirrors layout) (wellFormed : layout.WellFormed)
    (distinct : layout.DistinctNames) (refersBack : layout.RefersBack Set.univ)
    {steps : List library.Step} {record : library.Record}
    (left : library.model? (library.run memory steps) record = some model) {bytes : List UInt8}
    (wrote : library.toBytes memory model (library.run memory steps) record = .ok bytes) :
    ∃ record' s', library.fromBytes memory model (.ofBytes bytes) true (library.run memory steps) =
        (.ok record', s') ∧
      library.model? s' record' = some model ∧
      library.dump s' record' = library.dump (library.run memory steps) record := by
  rw [toBytes, own] at wrote
  obtain ⟨w, wrote_bits, -⟩ := map_eq_ok_iff.mp wrote
  have holds := mirror.holds_of_admits distinct enforces (reached_run steps)
    (enforces.sound_run steps) (.record left)
  have fits := mirror.fits_of_encode wellFormed distinct holds wrote_bits
  obtain ⟨value, decoded, equal⟩ :=
    Layout.decodeBytes_of_encodeWithin wellFormed distinct refersBack fits wrote
  obtain ⟨r, read⟩ := Layout.read_of_decodeBytes decoded
  -- The decoded record has its fields in the order of the slots; the library sorts them.
  have made := Layout.bare_of_decode read
  obtain ⟨entries, rfl, -⟩ := made.dict_of_equals equal
  obtain ⟨record', s', created, same⟩ :=
    enforces.accepts (reached_run steps) (mirror.keeps_of_equals holds made equal) holds
  refine ⟨record', s', fromBytes_eq_ok_iff.mpr ⟨.dict entries, ?_, created⟩,
    (enforces.create_ok (reached_run steps) created).2, same⟩
  rw [Model.decodeBuffer, own]
  exact congrArg (Except.mapError RecordError.failure) decoded

end RecordLibrary

/-- A count, a tempo in a sequence of its own, a mark of two bytes, as many notes and a key. -/
def Layout.melody : Layout :=
  .sequence
    [.named "count" (.bitField 8), .embedded (.sequence [.named "tempo" (.wideField 40)]),
      .named "mark" (.byteSlice (.literal 2)),
      .named "notes" (.array (.field "count")
        (.sequence [.named "pitch" (.bitField 7), .padding (.padding 1) none,
          .named "force" (.bitField 4)])),
      .named "key" (.sequence [.named "tonic" (.bitField 4)])]

namespace Model

/-- A note, which has no layout of its own. -/
def note : Model :=
  .mk "Note" [.mk "force" (.unsigned 4) none, .mk "pitch" (.unsigned 7) none] none

/-- A melody, with its fields in another order than in the layout. -/
def melody : Model :=
  .mk "Melody"
    [.mk "tempo" (.unsigned 40) none, .mk "count" (.unsigned 8) none,
      .mk "mark" (.fixedBytes 2) none, .mk "notes" (.list (.record note)) none,
      .mk "key" (.record (.mk "Key" [.mk "tonic" (.unsigned 4) none] none)) none]
    (some .melody)

/-- A note, a melody of this note and another one, a count that is too large for its field, another
pitch for the second note of the melody, and bytes that end too early. -/
def melodySteps : List RecordLibrary.converting.Step :=
  [.new note (.plain (.dict [(.text "pitch", .int 64), (.text "force", .int 5)])),
    .new melody (.dict [("count", .plain (.int 2)), ("tempo", .plain (.text "120")),
      ("mark", .plain (.text "OK")),
      ("notes", .list [.ref (0 : Nat),
        .plain (.dict [(.text "pitch", .int 67), (.text "force", .bool true)])]),
      ("key", .plain (.dict [(.text "tonic", .int 9)]))]),
    .assign (4 : Nat) "count" (.plain (.int 256)),
    .assign (2 : Nat) "pitch" (.plain (.int 69)),
    .fromBytes melody (.ofBytes [2]) true]

/-- The melody that these steps leave. -/
def melodyRecord : Entries :=
  [(.text "tempo", .int 120), (.text "count", .int 2), (.text "mark", .ofBytes [0x4F, 0x4B]),
    (.text "notes", .list [.dict [(.text "force", .int 5), (.text "pitch", .int 64)],
      .dict [(.text "force", .int 1), (.text "pitch", .int 69)]]),
    (.text "key", .dict [(.text "tonic", .int 9)])]

theorem mirrors_melody : (FieldType.record melody).Mirrors .melody := by
  have notes : (FieldType.record note).Mirrors (.sequence
      [.named "pitch" (.bitField 7), .padding (.padding 1) none, .named "force" (.bitField 4)]) :=
    .sequence (.named .bitField (.padding (.named .bitField .nil))) (.swap _ _ _)
  have key : (FieldType.record (.mk "Key" [.mk "tonic" (.unsigned 4) none] none)).Mirrors
      (.sequence [.named "tonic" (.bitField 4)]) :=
    .sequence (.named .bitField .nil) (.refl _)
  exact .sequence (.named .bitField (.embedded (.named .wideField .nil)
    (.named .byteSlice (.named (.array notes) (.named key .nil))))) (.swap _ _ _)

end Model

namespace RecordLibrary

open Model in
theorem fromBytes_of_toBytes_melody :
    converting.Enforces ∧ melody.expectLayout = .ok .melody ∧
      (FieldType.record melody).Mirrors .melody ∧ Layout.melody.WellFormed ∧
      Layout.melody.DistinctNames ∧ Layout.melody.RefersBack Set.univ ∧
      converting.model? (converting.run .ordinary melodySteps) (4 : Nat) = some melody ∧
      converting.dump (converting.run .ordinary melodySteps) (4 : Nat) = melodyRecord ∧
      converting.toBytes .ordinary melody (converting.run .ordinary melodySteps) (4 : Nat) =
        .ok [2, 0, 0, 0, 0, 120, 0x4F, 0x4B, 0x80, 0x58, 0xA1, 0x90] ∧
      ∃ record s', converting.fromBytes .ordinary melody
          (.ofBytes [2, 0, 0, 0, 0, 120, 0x4F, 0x4B, 0x80, 0x58, 0xA1, 0x90]) true
          (converting.run .ordinary melodySteps) = (.ok record, s') ∧
        converting.model? s' record = some melody ∧ converting.dump s' record = melodyRecord := by
  have wellFormed : Layout.melody.WellFormed := by decide +kernel
  have distinct : Layout.melody.DistinctNames := by decide +kernel
  have refersBack : Layout.melody.RefersBack Set.univ :=
    ⟨trivial, ⟨trivial, trivial⟩, trivial,
      ⟨by simp [Length.RefersTo, Slot.names], trivial, trivial, trivial, trivial⟩,
      ⟨trivial, trivial⟩, trivial⟩
  have left : converting.model? (converting.run .ordinary melodySteps) (4 : Nat) = some melody := by
    rfl
  have dumped : converting.dump (converting.run .ordinary melodySteps) (4 : Nat) = melodyRecord := by
    rfl
  have wrote : converting.toBytes .ordinary melody (converting.run .ordinary melodySteps)
      (4 : Nat) = .ok [2, 0, 0, 0, 0, 120, 0x4F, 0x4B, 0x80, 0x58, 0xA1, 0x90] := by
    unfold RecordLibrary.toBytes
    rw [dumped]
    cbv
  obtain ⟨record, s', read, same, equal⟩ := fromBytes_of_toBytes enforces_converting rfl
    mirrors_melody wellFormed distinct refersBack left wrote
  exact ⟨enforces_converting, rfl, mirrors_melody, wellFormed, distinct, refersBack, left, dumped,
    wrote, record, s', read, same, equal.trans dumped⟩

end RecordLibrary

end BitLayout
