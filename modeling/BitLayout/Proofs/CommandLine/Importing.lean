import BitLayout.CommandLine.SchemaFile
import BitLayout.Proofs.Outcome
import Mathlib.Tactic.SplitIfs

/-!
# Layouts out of modules

A reference is the path of a module and a name in it. It calls a layout if the module can be
imported and the last definition of the name is that layout. Whatever comes of the reference,
nothing is left behind but what the code of the module leaves.

## Main definitions

* `CommandLine.Binds`: definitions that give a value to a name
* `CommandLine.Importer.Leaves`: what importing a module leaves behind, or nothing
* `CommandLine.Importer.Exits`: a module that ends the program
* `CommandLine.Importer.IsQuiet`: modules that leave nothing behind and do not end the program
* `CommandLine.Importer.Defines`: a module that gives a name to a layout
* `CommandLine.Importer.Gives`: a reference that calls a layout

## Main results

* `CommandLine.SchemaFile.splitReference_eq_ok_iff`
* `CommandLine.SchemaFile.findLayout_eq_ok_iff`, `CommandLine.SchemaFile.leaves_findLayout`
-/

namespace BitLayout

namespace Text

variable {c : CodePoint} {s t u : Text}

theorem splitFirst?_eq_some_iff : splitFirst? c t = some (s, u) ↔ t = s ++ c :: u ∧ c ∉ s := by
  induction t generalizing s with
  | nil => simp [splitFirst?]
  | cons a t ih =>
    rw [splitFirst?]
    split_ifs with same
    · subst same
      constructor
      · intro found
        cases found
        exact ⟨rfl, nofun⟩
      · rintro ⟨divided, absent⟩
        cases s with
        | nil => exact congrArg (fun u => some ([], u)) (List.cons.inj divided).2
        | cons b s => exact absurd ((List.cons.inj divided).1 ▸ List.mem_cons_self) absent
    · rw [Option.map_eq_some_iff]
      constructor
      · rintro ⟨⟨s', u'⟩, found, same⟩
        cases same
        obtain ⟨rfl, absent⟩ := ih.mp found
        exact ⟨rfl, List.not_mem_cons_of_ne_of_not_mem (Ne.symm ‹a ≠ c›) absent⟩
      · rintro ⟨divided, absent⟩
        cases s with
        | nil => exact absurd (List.cons.inj divided).1 ‹_›
        | cons b s =>
          obtain ⟨rfl, rfl⟩ := List.cons.inj divided
          exact ⟨(s, u), ih.mpr ⟨rfl, fun member => absent (List.mem_cons_of_mem _ member)⟩, rfl⟩

/-- A text without the code point is what follows the last one. -/
theorem splitLast?_eq_some_iff : splitLast? c t = some (s, u) ↔ t = s ++ c :: u ∧ c ∉ u := by
  -- The last one is the first one from behind.
  rw [splitLast?, Option.map_eq_some_iff]
  constructor
  · rintro ⟨⟨back, front⟩, found, same⟩
    cases same
    obtain ⟨divided, absent⟩ := splitFirst?_eq_some_iff.mp found
    refine ⟨?_, by simpa using absent⟩
    rw [← List.reverse_reverse t, divided]
    simp
  · rintro ⟨rfl, absent⟩
    refine ⟨(u.reverse, s.reverse), splitFirst?_eq_some_iff.mpr ⟨by simp, by simpa using absent⟩, ?_⟩
    simp

end Text

namespace CommandLine

variable {importer : Importer} {files : Files} {definitions : List Definition} {path : FilePath}
  {reference name : Text} {value : Value} {layout : Layout} {left : Trace}

/-- The last definition of the name is of the value. -/
def Binds (definitions : List Definition) (name : Text) (value : Value) : Prop :=
  ∃ before definition after, definitions = before ++ definition :: after ∧
    definition.name = name ∧ definition.value = value ∧ ∀ later ∈ after, later.name ≠ name

namespace Importer

/-- What importing a module leaves behind, or nothing if there is no import. -/
def Leaves (importer : Importer) (files : Files) (left : Trace) : Prop :=
  left = .untouched files ∨ ∃ path, left = (importer.run files path).1

/-- A module that ends the program. -/
def Exits (importer : Importer) (files : Files) : Prop :=
  ∃ path status, (importer.run files path).2 = .exited status

/-- No module changes files, prints a result or ends the program. -/
structure IsQuiet (importer : Importer) (files : Files) : Prop where
  sameFiles : ∀ path, (importer.run files path).1.files = files
  noOutput : ∀ path, (importer.run files path).1.output = []
  goesOn : ¬importer.Exits files

/-- Importing the module at the path leaves something behind and gives the name to the layout. -/
structure Defines (importer : Importer) (files : Files) (file name : Text) (left : Trace)
    (layout : Layout) : Prop where
  loads : importer.loads (.ofText file) = true
  binds : ∃ definitions, importer.run files (.ofText file) = (left, .defined definitions) ∧
    Binds definitions name (.ofLayout layout)

/-- The reference consists of the path of a module and a name that this module defines. -/
inductive Gives (importer : Importer) (files : Files) : Text → Trace → Layout → Prop
  | mk {file name : Text} {left : Trace} {layout : Layout}
    (noColon : CodePoint.ofChar ':' ∉ name) (someFile : file ≠ []) (someName : name ≠ [])
    (there : files.contains (.ofText file) = .ok true)
    (defines : importer.Defines files file name left layout) :
    Gives importer files (file ++ ":" ++ name) left layout

theorem IsQuiet.leaves (quiet : importer.IsQuiet files) (leaves : importer.Leaves files left) :
    left.files = files ∧ left.output = [] := by
  obtain rfl | ⟨path, rfl⟩ := leaves
  · exact ⟨rfl, rfl⟩
  · exact ⟨quiet.sameFiles path, quiet.noOutput path⟩

end Importer

namespace SchemaFile

theorem find?_eq_some_iff :
    (find? definitions name).map Definition.value = some value ↔ Binds definitions name value := by
  rw [Option.map_eq_some_iff]
  constructor
  · rintro ⟨definition, found, rfl⟩
    -- The search starts at the last definition.
    obtain ⟨named, after, before, divided, others⟩ := List.find?_eq_some_iff_append.mp found
    refine ⟨before.reverse, definition, after.reverse, ?_, of_decide_eq_true named, rfl, ?_⟩
    · rw [← List.reverse_reverse definitions, divided]
      simp
    · intro later member same
      have other := others later (List.mem_reverse.mp member)
      simp [same] at other
  · rintro ⟨before, definition, after, rfl, named, rfl, others⟩
    refine ⟨definition, List.find?_eq_some_iff_append.mpr ⟨decide_eq_true named, after.reverse,
      before.reverse, by simp, fun later member => ?_⟩, rfl⟩
    simpa using others later (List.mem_reverse.mp member)

theorem splitReference_eq_ok_iff : splitReference reference = .ok (path, name) ↔
    ∃ file, reference = file ++ ":" ++ name ∧ path = .ofText file ∧ CodePoint.ofChar ':' ∉ name ∧
      file ≠ [] ∧ name ≠ [] := by
  have joined {file : Text} : file ++ ":" ++ name = file ++ CodePoint.ofChar ':' :: name :=
    List.append_assoc ..
  rw [splitReference]
  constructor
  · intro split
    split at split
    next => cases split
    next file name' divided =>
      split_ifs at split with empty
      cases split
      rw [Bool.or_eq_true, List.isEmpty_iff, List.isEmpty_iff, not_or] at empty
      obtain ⟨rfl, absent⟩ := Text.splitLast?_eq_some_iff.mp divided
      exact ⟨file, joined.symm, rfl, absent, empty.1, empty.2⟩
  · rintro ⟨file, rfl, rfl, absent, file_ne, name_ne⟩
    rw [joined, Text.splitLast?_eq_some_iff.mpr ⟨rfl, absent⟩]
    dsimp only
    rw [List.isEmpty_eq_false_iff.mpr file_ne, List.isEmpty_eq_false_iff.mpr name_ne]
    rfl

/-- A reference is divided at the colon before the name. -/
theorem eq_of_splitReference {file name' : Text} (noColon : CodePoint.ofChar ':' ∉ name)
    (split : splitReference (file ++ ":" ++ name) = .ok (path, name')) :
    path = .ofText file ∧ name' = name ∧ file ≠ [] ∧ name ≠ [] := by
  have divided : Text.splitLast? (.ofChar ':') (file ++ ":" ++ name) = some (file, name) :=
    Text.splitLast?_eq_some_iff.mpr ⟨List.append_assoc .., noColon⟩
  rw [splitReference, divided] at split
  dsimp only at split
  split_ifs at split with empty
  cases split
  rw [Bool.or_eq_true, List.isEmpty_iff, List.isEmpty_iff, not_or] at empty
  exact ⟨rfl, rfl, empty⟩

theorem load_eq_ok_iff : load importer files path = (left, .ok definitions) ↔
    importer.loads path = true ∧ importer.run files path = (left, .defined definitions) := by
  rw [load]
  cases importer.loads path with
  | false => exact ⟨nofun, nofun⟩
  | true =>
    rw [if_pos rfl]
    obtain ⟨trace, ending⟩ := importer.run files path
    cases ending with
    | defined definitions =>
      constructor
      · intro same
        cases same
        exact ⟨rfl, rfl⟩
      · rintro ⟨-, same⟩
        cases same
        rfl
    | raised message | exited status => exact ⟨nofun, nofun⟩

theorem leaves_load : importer.Leaves files (load importer files path).1 := by
  rw [load]
  split_ifs
  · exact Or.inr ⟨path, rfl⟩
  · exact Or.inl rfl

theorem named_eq_ok_iff : named definitions path name = .ok layout ↔
    Binds definitions name (.ofLayout layout) := by
  rw [named, ← find?_eq_some_iff]
  split
  next found =>
    rw [found, Option.some.injEq, Value.ofLayout.injEq, Except.ok.injEq]
  next other => exact ⟨nofun, fun found => absurd found (other layout)⟩

/-- A reference calls a layout exactly if importing its module gives the layout to the name. -/
theorem findLayout_eq_ok_iff : findLayout importer files reference = (left, .ok layout) ↔
    importer.Gives files reference left layout := by
  rw [findLayout]
  constructor
  · intro found
    split at found
    next => cases found
    next path name split =>
      split at found
      next => cases found
      next => cases found
      next there =>
        obtain ⟨file, rfl, rfl, noColon, someFile, someName⟩ := splitReference_eq_ok_iff.mp split
        generalize loaded : load importer files (.ofText file) = outcome at found
        obtain ⟨trace, outcome⟩ := outcome
        dsimp only at found
        obtain ⟨rfl, called⟩ := Prod.mk.inj found
        obtain ⟨definitions, rfl, bound⟩ := bind_eq_ok_iff.mp called
        obtain ⟨loads, imported⟩ := load_eq_ok_iff.mp loaded
        exact .mk noColon someFile someName there ⟨loads, definitions, imported,
          named_eq_ok_iff.mp (mapError_eq_ok_iff.mp bound)⟩
  · rintro ⟨noColon, someFile, someName, there, loads, definitions, imported, bound⟩
    rw [splitReference_eq_ok_iff.mpr ⟨_, rfl, rfl, noColon, someFile, someName⟩]
    dsimp only
    rw [there]
    dsimp only
    rw [load_eq_ok_iff.mpr ⟨loads, imported⟩]
    exact Prod.ext rfl (mapError_eq_ok_iff.mpr (named_eq_ok_iff.mpr bound))

/-- Nothing is left behind but what the module leaves. -/
theorem leaves_findLayout : importer.Leaves files (findLayout importer files reference).1 := by
  rw [findLayout]
  split
  next => exact Or.inl rfl
  next =>
    split
    next => exact Or.inl rfl
    next => exact Or.inl rfl
    next => exact leaves_load

end SchemaFile

end CommandLine

end BitLayout
