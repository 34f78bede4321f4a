import BitLayout.Proofs.CommandLine.Run
import BitLayout.Proofs.Decoding.Parts
import BitLayout.Proofs.Json.RoundTrip
import BitLayout.Proofs.Json.Transport
import BitLayout.Proofs.Reencoding
import BitLayout.Proofs.Text.Readable

/-!
# A binary file by way of a document

Decoding a file into a document and encoding the document gives the bits that were read, with the
padding cleared and the last byte filled up with zeros. Each stage between the two runs loses
nothing: the value is wrapped, printed, spelled, written, and all of it is undone in reverse.

## Main definitions

* `Layout.HasNames`, `Layout.CharacterNames`: names of one kind, names without surrogates
* `CommandLine.Journey`: the words of the two runs
* `CommandLine.Journey.Imports`: a module that defines the schema and spares the files of the runs

## Main results

* `CommandLine.valueOf_of_print`: a document holds the value it was made for
* `CommandLine.Journey.restores_bits`
-/

namespace BitLayout

instance : DecidablePred Text.HasNoSurrogate := fun t =>
  inferInstanceAs (Decidable (∀ c ∈ t, c.isSurrogate = false))

/-- A layout that gives its record no other names than those of one kind. -/
def Layout.HasNames (kind : Text → Prop) : Layout → Prop
  | .sequence slots => ∀ name ∈ namesOfSlots slots, kind name
  | _ => True

/-- A layout in which no name of a slot holds a surrogate. -/
def Layout.CharacterNames (layout : Layout) : Prop :=
  layout.Everywhere (HasNames Text.HasNoSurrogate)

instance (kind : Text → Prop) [DecidablePred kind] : DecidablePred (Layout.HasNames kind)
  | .sequence slots => inferInstanceAs (Decidable (∀ name ∈ namesOfSlots slots, kind name))
  | .abstract | .array .. | .branch .. | .bitField _ | .wideField _ | .byteSlice _ | .text ..
  | .padding _ => isTrue trivial

instance (layout : Layout) : Decidable layout.CharacterNames :=
  layout.decideEverywhere (Layout.HasNames Text.HasNoSurrogate)

/-- Lossless texts hold characters only, because they can be encoded. -/
theorem Layout.yields_of_lossless {layout : Layout} (lossless : layout.HasLosslessText)
    (named : layout.HasNames Text.HasNoSurrogate) :
    layout.Yields (Value.IsPlain Text.HasNoSurrogate) Text.HasNoSurrogate := by
  cases layout with
  | sequence slots =>
    rintro slot member name layout rfl
    exact named name (Slot.names_subset member List.mem_cons_self)
  | text length encoding =>
    exact fun raw t spelled => EncodingName.hasNoSurrogate_of_encode (lossless raw t spelled)
  | byteSlice length | bitField width | wideField width => exact fun _ => trivial
  | abstract | array length element | branch discriminant cases otherwise | padding width =>
    trivial

namespace CommandLine

section Document

variable {layout : Layout} {data content : List UInt8} {value : Value} {r : BitReader}
  {document : Text}

theorem withLineFeeds_of_absent (absent : CodePoint.ofChar '\r' ∉ document) :
    withLineFeeds document = document := by
  induction document with
  | nil => rfl
  | cons c rest ih =>
    rw [List.mem_cons, not_or] at absent
    rw [withLineFeeds.eq_def]
    dsimp only
    rw [if_neg (Ne.symm absent.1), ih absent.2]

/-- A document that was made for a value without surrogates, and spelled with a line feed after it,
holds that value. -/
theorem valueOf_of_print
    (made : value.MadeOf (Value.IsPlain Text.HasNoSurrogate) Text.HasNoSurrogate)
    (printed : Json.print .indented value.toTransport = .ok document)
    (spelled : Encoding.utf8.encode (document ++ "\n") = .ok content) :
    valueOf content = .ok value := by
  have digits (data : List UInt8) : (Text.hexOfBytes data).HasNoSurrogate := by
    intro c member
    have ascii := ascii_of_mem_hexOfBytes member
    exact CodePoint.isSurrogate_eq_false (by omega)
  have scalars := made.toTransport digits (by decide) (by decide)
  have characters := Json.isPrinted_of_printAt scalars printed
  have absent : CodePoint.ofChar '\r' ∉ document ++ "\n" := by
    intro member
    rcases List.mem_append.mp member with member | member
    · exact absurd (characters _ member) (by decide)
    · exact absurd member (by decide)
  have blank : ∀ c ∈ Text.ofString "\n", Json.isBlank c = true := by decide
  have again := Json.read_of_print scalars printed blank
  rw [valueOf, Encoding.decode_of_encode spelled]
  dsimp only [Except.mapError, bind, Except.bind]
  rw [withLineFeeds_of_absent absent, again]
  dsimp only
  rw [made.ofTransport_toTransport]

end Document

/-- The words of two runs: the first one decodes a file into a document, and the second one encodes
this document into another file. -/
structure Journey where
  /-- The module that defines the schema. -/
  schemaFile : Text
  /-- The name of the schema. -/
  name : Text
  input : Text
  document : Text
  output : Text

namespace Journey

/-- How both runs call the schema. -/
def reference (j : Journey) : Text := j.schemaFile ++ ":" ++ j.name

/-- The words of the first run. -/
def decodeWords (j : Journey) : List Text := ["decode", j.reference, j.input, "-o", j.document]

/-- The words of the second run. -/
def encodeWords (j : Journey) : List Text := ["encode", j.reference, j.document, "-o", j.output]

/-- No word is an option, and the name of the schema has no colon. -/
structure HasPlainWords (j : Journey) : Prop where
  reference : IsOperand j.reference
  input : IsOperand j.input
  document : IsOperand j.document
  output : IsOperand j.output
  noColon : CodePoint.ofChar ':' ∉ j.name

/-- The words name four files, which are at different places. -/
def HasDistinctFiles (j : Journey) (files : Files) : Prop :=
  ∃ schemaPlace inputPlace documentPlace outputPlace,
    files.NamesFile j.schemaFile schemaPlace ∧ files.NamesFile j.input inputPlace ∧
      files.NamesFile j.document documentPlace ∧ files.NamesFile j.output outputPlace ∧
      [schemaPlace, inputPlace, documentPlace, outputPlace].Nodup

/-- Importing the module gives the name to the layout and leaves all four files as they are. -/
def Imports (j : Journey) (importer : Importer) (files : Files) (layout : Layout) : Prop :=
  ∃ left, importer.Defines files j.schemaFile j.name left layout ∧
    ∀ file ∈ [j.schemaFile, j.input, j.document, j.output],
      files.Spares left.files (.ofText file)

variable {importer : Importer} {memory : Memory} {files : Files} {j : Journey} {layout : Layout}
  {data : List UInt8}

theorem run_decodeWords (importer : Importer) (memory : Memory) (files : Files)
    (plain : j.HasPlainWords) :
    (run importer memory files j.decodeWords).status = (Command.runDecode importer files
        (some j.reference) (some j.input) j.document false false).status ∧
      (run importer memory files j.decodeWords).files = (Command.runDecode importer files
        (some j.reference) (some j.input) j.document false false).files := by
  rw [run, decodeWords, ofWords_decode plain.reference plain.input plain.document]
  exact ⟨rfl, rfl⟩

theorem run_encodeWords (importer : Importer) (memory : Memory) (files : Files)
    (plain : j.HasPlainWords) :
    (run importer memory files j.encodeWords).status = (Command.runEncode importer memory files
        (some j.reference) (some j.document) j.output false).status ∧
      (run importer memory files j.encodeWords).files = (Command.runEncode importer memory files
        (some j.reference) (some j.document) j.output false).files := by
  rw [run, encodeWords, ofWords_encode plain.reference plain.document plain.output]
  exact ⟨rfl, rfl⟩

/-- The first run writes a document that holds the value, on top of what the import left behind. -/
theorem decode_spec {left : Trace} (plain : j.HasPlainWords) (named : j.document ≠ [])
    (gives : importer.Gives files j.reference left layout)
    (held : left.files.read (.ofText j.input) = .ok data)
    (decoded : (run importer memory files j.decodeWords).status = 0) :
    ∃ value r document content, layout.read data = .ok (value, r) ∧
      Json.print .indented value.toTransport = .ok document ∧
      Encoding.utf8.encode (document ++ "\n") = .ok content ∧
      left.files.write (.ofText j.document) content =
        .ok (run importer memory files j.decodeWords).files := by
  obtain ⟨status, after⟩ := run_decodeWords importer memory files plain
  rw [status] at decoded
  obtain ⟨data', document, content, held', written, spelled, wrote⟩ :=
    Command.runDecode_of_status named gives decoded
  cases held.symm.trans held'
  obtain ⟨value, decoded, printed⟩ := bind_eq_ok_iff.mp written
  obtain ⟨⟨value', r⟩, read, same⟩ := bind_eq_ok_iff.mp (mapError_eq_ok_iff.mp decoded)
  cases same
  exact ⟨value, r, document, content, read, mapError_eq_ok_iff.mp printed, spelled, after ▸ wrote⟩

/-- The second run writes the bytes of the value that the document holds. -/
theorem encode_spec {left : Trace} {value : Value} {content bytes : List UInt8} {after : Files}
    (plain : j.HasPlainWords) (named : j.output ≠ [])
    (gives : importer.Gives files j.reference left layout)
    (held : left.files.read (.ofText j.document) = .ok content)
    (meant : valueOf content = .ok value) (encoded : layout.encodeWithin memory value = .ok bytes)
    (wrote : left.files.write (.ofText j.output) bytes = .ok after) :
    (run importer memory files j.encodeWords).status = 0 ∧
      (run importer memory files j.encodeWords).files = after := by
  obtain ⟨status, leaves⟩ := run_encodeWords importer memory files plain
  have loaded : Command.load importer files (some j.reference) (some j.document) =
      (left, .ok (layout, content)) :=
    Command.load_eq_ok_iff.mpr ⟨_, _, rfl, rfl, gives, held⟩
  obtain ⟨done, same⟩ := Command.runEncode_of_write named loaded meant encoded wrote
  exact ⟨status.trans done, leaves.trans same⟩

/-- The two runs restore the bits that were read, if the module defines the schema in each of them
and spares their files. -/
theorem restores_bits (plain : j.HasPlainWords) (distinct : j.HasDistinctFiles files)
    (imported : j.Imports importer files layout)
    (importedAgain : j.Imports importer (run importer memory files j.decodeWords).files layout)
    (wellFormed : layout.WellFormed) (distinctNames : layout.DistinctNames)
    (characters : layout.CharacterNames) (lossless : layout.LosslessTexts)
    (held : files.read (.ofText j.input) = .ok data)
    (room : memory.hasRoom (8 * data.length) = true)
    (decoded : (run importer memory files j.decodeWords).status = 0) :
    ∃ value r bytes, layout.read data = .ok (value, r) ∧ layout.encodeValue value = .ok bytes ∧
      (layout.padded none (.ofBytes data)).length = r.position ∧
      bytes.length = (r.position + 7) / 8 ∧
      bitsOfBytes bytes =
        cleared (bitsOfBytes (data.take bytes.length)) (layout.padded none (.ofBytes data)) ∧
      (run importer memory (run importer memory files j.decodeWords).files
        j.encodeWords).status = 0 ∧
      (run importer memory (run importer memory files j.decodeWords).files
        j.encodeWords).files.read (.ofText j.output) = .ok bytes := by
  obtain ⟨schemaPlace, inputPlace, documentPlace, outputPlace, schemaAt, -, documentAt, outputAt,
    apart⟩ := distinct
  have schema_ne : schemaPlace ≠ documentPlace := by
    rintro rfl
    simp at apart
  have output_ne : outputPlace ≠ documentPlace := by
    rintro rfl
    simp at apart
  -- The first run: the import leaves the files as they are, and the document is written.
  obtain ⟨left, defines, spares⟩ := imported
  simp only [List.forall_mem_cons] at spares
  obtain ⟨sparesSchema, sparesInput, sparesDocument, sparesOutput, -⟩ := spares
  obtain ⟨someFile, someName, there⟩ := Command.found_of_status plain.noColon
    ((run_decodeWords importer memory files plain).1.symm.trans decoded)
  have gives : importer.Gives files j.reference left layout :=
    .mk plain.noColon someFile someName there defines
  obtain ⟨value, r, document, content, read, printed, spelled, wrote⟩ :=
    decode_spec plain documentAt.named gives (sparesInput.read.trans held) decoded
  obtain ⟨place, located, agree, -⟩ := Files.agreeExcept_of_write wrote
  cases located.symm.trans (sparesDocument.namesFile documentAt).located
  have there_again : (run importer memory files j.decodeWords).files.contains
      (.ofText j.schemaFile) = .ok true :=
    agree.contains (sparesSchema.namesFile schemaAt).located schema_ne
      (sparesSchema.contains.trans there)
  have held_document := Files.read_of_write wrote
  have outputAt_again := agree.namesFile (sparesOutput.namesFile outputAt) output_ne
  generalize (run importer memory files j.decodeWords).files = after at *
  -- The second run: the document is still there, and there is room for its bytes.
  obtain ⟨left', defines', spares⟩ := importedAgain
  simp only [List.forall_mem_cons] at spares
  obtain ⟨-, -, sparesDocument', sparesOutput', -⟩ := spares
  have made := Layout.madeOf_of_decode
    (lossless.mono₂ (fun _ => Layout.yields_of_lossless) characters) (fun _ => id) read
  obtain ⟨bytes, wrote_bytes, within, position, length, bits, -⟩ :=
    Layout.encodeValue_of_read wellFormed distinctNames lossless read
  obtain ⟨final, wrote_output⟩ := (sparesOutput'.namesFile outputAt_again).write bytes
  obtain ⟨done, leaves⟩ := encode_spec plain outputAt.named
    (.mk plain.noColon someFile someName there_again defines') (sparesDocument'.read.trans held_document)
    (valueOf_of_print made printed spelled) (within memory room) wrote_output
  refine ⟨value, r, bytes, read, wrote_bytes, position, length, bits, done, ?_⟩
  rw [leaves]
  exact Files.read_of_write wrote_output

section Parcel

/-- A count in half a byte, a gap, and as many bytes. -/
def parcel : Layout :=
  .sequence [.named "n" .nibble, .padding (.padding 4) (some "gap"),
    .named "b" (.byteSlice (.field "n"))]

/-- A module that defines this layout. -/
def parcelModule : Text :=
  "from bitschema import NIBBLE, byteslice, padding, sequence\n" ++
    "P = sequence((\"n\", NIBBLE), (\"gap\", padding(4)), (\"b\", byteslice(\"n\")))\n"

/-- The layouts that it gives names to. -/
def parcelDefinitions : List Definition :=
  [⟨"NIBBLE", .ofLayout .nibble, true⟩, ⟨"P", .ofLayout parcel, false⟩]

/-- An importer that keeps no compiled modules. -/
def parcelImporter : Importer where
  loads path := path.render.endsWith ".py"
  run files path :=
    (.untouched files,
      match files.read path with
      | .error error => .raised error.message
      | .ok content =>
        if content = parcelModule.map fun c => UInt8.ofNat c.toNat then .defined parcelDefinitions
        else .raised "invalid syntax")

/-- A directory with the module and a file to decode. -/
def parcelFiles : Files :=
  ⟨[(⟨[], ["s.py"]⟩, parcelModule.map fun c => UInt8.ofNat c.toNat),
    (⟨[], ["in"]⟩, [0x2F, 0xAA, 0xBB, 0x01])], []⟩

/-- The way of that file through a document. -/
def parcelJourney : Journey := ⟨"s.py", "P", "in", "doc", "out"⟩

/-- The module is imported wherever it is read. -/
theorem imports_parcel {files : Files} (held : files.read (.ofText "s.py") =
    .ok (parcelModule.map fun c => UInt8.ofNat c.toNat)) :
    parcelJourney.Imports parcelImporter files parcel := by
  have ran : parcelImporter.run files (.ofText "s.py") =
      (.untouched files, .defined parcelDefinitions) := by
    simp only [parcelImporter, held, if_true]
  have bound : Binds parcelDefinitions "P" (.ofLayout parcel) :=
    ⟨[⟨"NIBBLE", .ofLayout .nibble, true⟩], ⟨"P", .ofLayout parcel, false⟩, [], rfl, rfl, rfl, nofun⟩
  exact ⟨.untouched files, ⟨rfl, parcelDefinitions, ran, bound⟩, fun _ _ _ _ => rfl⟩

theorem restores_bits_parcel :
    parcelJourney.HasPlainWords ∧ parcelJourney.HasDistinctFiles parcelFiles ∧
      parcelJourney.Imports parcelImporter parcelFiles parcel ∧
      parcelJourney.Imports parcelImporter
        (run parcelImporter .ordinary parcelFiles parcelJourney.decodeWords).files parcel ∧
      parcel.WellFormed ∧ parcel.DistinctNames ∧ parcel.CharacterNames ∧ parcel.LosslessTexts ∧
      parcelFiles.read (.ofText "in") = .ok [0x2F, 0xAA, 0xBB, 0x01] ∧
      Memory.ordinary.hasRoom (8 * 4) = true ∧
      (run parcelImporter .ordinary parcelFiles parcelJourney.decodeWords).status = 0 ∧
      ∃ bytes, bytes.length = 3 ∧
        (run parcelImporter .ordinary
          (run parcelImporter .ordinary parcelFiles parcelJourney.decodeWords).files
          parcelJourney.encodeWords).files.read (.ofText "out") = .ok bytes := by
  have operand : ∀ word ∈ [parcelJourney.reference, parcelJourney.input, parcelJourney.document,
      parcelJourney.output], IsOperand word := by
    simp only [List.forall_mem_cons]
    refine ⟨?_, ?_, ?_, ?_, nofun⟩ <;> exact ⟨rfl, fun kind => by cases kind <;> rfl⟩
  have plain : parcelJourney.HasPlainWords := by
    simp only [List.forall_mem_cons] at operand
    obtain ⟨reference, input, document, output, -⟩ := operand
    exact ⟨reference, input, document, output, by decide⟩
  have distinct : parcelJourney.HasDistinctFiles parcelFiles :=
    ⟨⟨[], ["s.py"]⟩, ⟨[], ["in"]⟩, ⟨[], ["doc"]⟩, ⟨[], ["out"]⟩,
      ⟨by decide, rfl, by decide +kernel⟩, ⟨by decide, rfl, by decide +kernel⟩,
      ⟨by decide, rfl, by decide +kernel⟩, ⟨by decide, rfl, by decide +kernel⟩, by decide⟩
  have imported : parcelJourney.Imports parcelImporter parcelFiles parcel := imports_parcel rfl
  have importedAgain : parcelJourney.Imports parcelImporter
      (run parcelImporter .ordinary parcelFiles parcelJourney.decodeWords).files parcel :=
    imports_parcel (toOption_eq_some_iff.mp (by decide +kernel))
  have wellFormed : parcel.WellFormed := by decide +kernel
  have distinctNames : parcel.DistinctNames := by decide +kernel
  have characters : parcel.CharacterNames := by decide +kernel
  have lossless : parcel.LosslessTexts := ⟨trivial, trivial, trivial, trivial, trivial⟩
  have held : parcelFiles.read (.ofText "in") = .ok [0x2F, 0xAA, 0xBB, 0x01] := rfl
  have room : Memory.ordinary.hasRoom (8 * 4) = true := by decide +kernel
  have decoded : (run parcelImporter .ordinary parcelFiles parcelJourney.decodeWords).status = 0 := by
    decide +kernel
  have read : parcel.read [0x2F, 0xAA, 0xBB, 0x01] =
      .ok (.dict [(.text "n", .int 2), (.text "b", .ofBytes [0xAA, 0xBB])],
        ⟨#[0x2F, 0xAA, 0xBB, 0x01], 3, 0⟩) := by cbv
  obtain ⟨value, r, bytes, read', -, -, length, -, -, written⟩ := restores_bits plain distinct
    imported importedAgain wellFormed distinctNames characters lossless held room decoded
  cases read.symm.trans read'
  exact ⟨plain, distinct, imported, importedAgain, wellFormed, distinctNames, characters, lossless,
    held, room, decoded, bytes, length, written⟩

end Parcel

end Journey

end CommandLine

end BitLayout
