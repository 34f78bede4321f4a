import BitLayout.CommandLine.Run
import BitLayout.Proofs.CommandLine.Arguments
import BitLayout.Proofs.CommandLine.Files
import BitLayout.Proofs.CommandLine.Importing

/-!
# Runs that succeed

A command succeeds exactly if each of its steps does, and then it leaves what the last step wrote on
top of what the import left behind.

## Main results

* `CommandLine.deliver_of_write`, `CommandLine.write_of_deliver`
* `CommandLine.Command.load_eq_ok_iff`, `CommandLine.Command.leaves_load`
* `CommandLine.Command.runDecode_of_status`, `CommandLine.Command.runEncode_of_write`
-/

namespace BitLayout.CommandLine

variable {importer : Importer} {memory : Memory} {files after : Files} {path : FilePath}
  {file name output : Text} {schema input : Option Text} {strict verbose : Bool} {layout : Layout}
  {content data : List UInt8} {left : Trace}

section Delivery

/-- Delivering to a file succeeds if the file is written. -/
theorem deliver_of_write (named : output ≠ [])
    (wrote : left.files.write (.ofText output) content = .ok after) :
    deliver left output content = .succeeded { left with files := after } [] := by
  rw [deliver, List.isEmpty_eq_false_iff.mpr named, if_neg Bool.false_ne_true, wrote]

theorem write_of_deliver (named : output ≠ [])
    (done : (deliver left output content).status = 0) :
    left.files.write (.ofText output) content = .ok (deliver left output content).files := by
  rw [deliver, List.isEmpty_eq_false_iff.mpr named, if_neg Bool.false_ne_true] at done ⊢
  cases wrote : left.files.write (.ofText output) content with
  | error e =>
    rw [wrote] at done
    cases done
  | ok after => rfl

end Delivery

namespace Command

section Loading

theorem load_eq_ok_iff : load importer files schema input = (left, .ok (layout, content)) ↔
    ∃ reference file, schema = some reference ∧ input = some file ∧
      importer.Gives files reference left layout ∧
      left.files.read (.ofText file) = .ok content := by
  cases schema with
  | none => exact ⟨nofun, fun ⟨_, _, named, _⟩ => nomatch named⟩
  | some reference =>
    rw [load]
    generalize found : SchemaFile.findLayout importer files reference = outcome
    obtain ⟨trace, outcome⟩ := outcome
    dsimp only
    constructor
    · intro loaded
      obtain ⟨rfl, steps⟩ := Prod.mk.inj loaded
      -- First the layout is found, and then the input is read in what the import left.
      obtain ⟨layout', rfl, others⟩ := bind_eq_ok_iff.mp steps
      obtain ⟨content', held, last⟩ := bind_eq_ok_iff.mp others
      cases last
      rw [mapError_eq_ok_iff] at held
      cases input with
      | none => cases held
      | some file =>
        exact ⟨reference, file, rfl, rfl, SchemaFile.findLayout_eq_ok_iff.mp found,
          mapError_eq_ok_iff.mp held⟩
    · rintro ⟨_, file, same, rfl, gives, held⟩
      cases same
      obtain ⟨rfl, rfl⟩ := Prod.mk.inj (found.symm.trans (SchemaFile.findLayout_eq_ok_iff.mpr gives))
      refine Prod.ext rfl (bind_eq_ok_iff.mpr ⟨layout, rfl, bind_eq_ok_iff.mpr ⟨content, ?_, rfl⟩⟩)
      exact mapError_eq_ok_iff.mpr (mapError_eq_ok_iff.mpr held)

/-- Loading leaves nothing behind but what a module leaves. -/
theorem leaves_load : importer.Leaves files (load importer files schema input).1 := by
  cases schema with
  | none => exact Or.inl rfl
  | some reference => exact SchemaFile.leaves_findLayout

end Loading

/-- A decoding that succeeds has found the module. -/
theorem found_of_status (noColon : CodePoint.ofChar ':' ∉ name)
    (done : (runDecode importer files (some (file ++ ":" ++ name)) input output strict
      verbose).status = 0) :
    file ≠ [] ∧ name ≠ [] ∧ files.contains (.ofText file) = .ok true := by
  rw [runDecode, load, SchemaFile.findLayout] at done
  cases split : SchemaFile.splitReference (file ++ ":" ++ name) with
  | error e =>
    rw [split] at done
    cases done
  | ok parts =>
    obtain ⟨path, name'⟩ := parts
    obtain ⟨rfl, rfl, someFile, someName⟩ := SchemaFile.eq_of_splitReference noColon split
    rw [split] at done
    dsimp only at done
    cases there : files.contains (.ofText file) with
    | error e =>
      rw [there] at done
      cases done
    | ok found =>
      cases found with
      | false =>
        rw [there] at done
        cases done
      | true => exact ⟨someFile, someName, rfl⟩

/-- What a decoding that succeeds went through behind the import. -/
theorem runDecode_of_status {reference : Text} (named : output ≠ [])
    (gives : importer.Gives files reference left layout)
    (done : (runDecode importer files (some reference) (some file) output strict
      verbose).status = 0) :
    ∃ data document content, left.files.read (.ofText file) = .ok data ∧
      documentOf layout data strict = .ok document ∧
      Encoding.utf8.encode (document ++ "\n") = .ok content ∧
      left.files.write (.ofText output) content =
        .ok (runDecode importer files (some reference) (some file) output strict verbose).files := by
  rw [runDecode, load, SchemaFile.findLayout_eq_ok_iff.mpr gives] at done ⊢
  dsimp only [readOperand] at done ⊢
  cases held : left.files.read (.ofText file) with
  | error e =>
    rw [held] at done
    cases done
  | ok data =>
    rw [held] at done
    dsimp only [Except.mapError, bind, Except.bind, deliverDocument] at done ⊢
    cases written : documentOf layout data strict with
    | error e =>
      rw [written] at done
      cases done
    | ok document =>
      rw [written] at done
      dsimp only at done ⊢
      cases spelled : Encoding.utf8.encode (document ++ "\n") with
      | error e =>
        rw [spelled] at done
        cases done
      | ok content =>
        rw [spelled] at done
        exact ⟨data, document, content, rfl, written, spelled, write_of_deliver named done⟩

/-- An encoding of which each step succeeds. -/
theorem runEncode_of_write {value : Value} {bytes : List UInt8} (named : output ≠ [])
    (loaded : load importer files schema input = (left, .ok (layout, content)))
    (held : valueOf content = .ok value) (encoded : layout.encodeWithin memory value = .ok bytes)
    (wrote : left.files.write (.ofText output) bytes = .ok after) :
    (runEncode importer memory files schema input output verbose).status = 0 ∧
      (runEncode importer memory files schema input output verbose).files = after := by
  have written (log : List Text) : deliver (left.logged log) output bytes =
      .succeeded { left.logged log with files := after } [] := deliver_of_write named wrote
  rw [runEncode, loaded]
  dsimp only
  rw [held]
  dsimp only
  rw [deliverBytes, encoded]
  dsimp only
  rw [written]
  exact ⟨rfl, rfl⟩

end Command

end BitLayout.CommandLine
