import BitLayout.CommandLine.Files
import Mathlib.Tactic.SplitIfs

/-!
# What writing a file leaves as it was

A file is written where the way to it exists already. So nothing else comes into being, and every
path that led somewhere still leads there.

## Main definitions

* `Files.HasParents`: a place in a directory that exists
* `Files.AgreeExcept`: two states that differ in one file at most
* `Files.Spares`: two states that agree on the way along a path
* `Files.NamesFile`: a text that leads to a file or to where one may be written

## Main results

* `Files.hasParents_of_locate`
* `Files.write_eq_ok_iff`, `Files.agreeExcept_of_write`, `Files.read_of_write`
* `Files.AgreeExcept.locate`, `Files.AgreeExcept.read`, `Files.AgreeExcept.contains`
* `Files.Spares.locate`, `Files.Spares.read`, `Files.Spares.contains`
-/

namespace BitLayout

namespace FilePath

variable {place around : FilePath} {part : Text}

theorem isBelow_iff : place.isBelow around = true ↔ place.root = around.root ∧
    around.parts <+: place.parts ∧ around.parts.length < place.parts.length := by
  rw [isBelow, Bool.and_eq_true, Bool.and_eq_true, decide_eq_true_eq, decide_eq_true_eq,
    List.isPrefixOf_iff_prefix, and_assoc]

/-- The start of a path lies in no other directory. -/
theorem not_isBelow_start (path : FilePath) : path.start.isBelow around = false := by
  rw [Bool.eq_false_iff, Ne, isBelow_iff]
  rintro ⟨-, -, shorter⟩
  exact Nat.not_lt_zero _ shorter

/-- A longer place lies in the place before its last part or around that. -/
theorem isBelow_append (below : (⟨place.root, place.parts ++ [part]⟩ : FilePath).isBelow around) :
    around = place ∨ place.isBelow around = true := by
  obtain ⟨root, leads, shorter⟩ := isBelow_iff.mp below
  rw [List.length_append, List.length_singleton] at shorter
  have inside : around.parts <+: place.parts :=
    List.prefix_of_prefix_length_le leads (List.prefix_append _ _) (by omega)
  by_cases same : around.parts = place.parts
  · left
    obtain ⟨aroundRoot, aroundParts⟩ := around
    obtain ⟨placeRoot, placeParts⟩ := place
    cases root
    cases same
    rfl
  · right
    exact isBelow_iff.mpr ⟨root, inside, Nat.lt_of_le_of_ne inside.length_le
      fun equal => same (inside.eq_of_length equal)⟩

/-- The place after one more part lies in no directory but the one before it and those around. -/
theorem isBelow_child (below : (place.child part).isBelow around = true) :
    around = place ∨ place.isBelow around = true := by
  rw [child] at below
  by_cases named : part ≠ parent
  · rw [if_pos named] at below
    exact isBelow_append below
  · rw [if_neg named] at below
    cases last : place.parts.getLast? with
    | none =>
      rw [last] at below
      dsimp only at below
      have empty := List.getLast?_eq_none_iff.mp last
      split_ifs at below with here
      · rw [List.isEmpty_iff] at here
        have same : (⟨[], [parent]⟩ : FilePath) = ⟨place.root, place.parts ++ [parent]⟩ := by
          rw [here, empty]
          rfl
        exact isBelow_append (same ▸ below)
      · exact Or.inr below
    | some before =>
      rw [last] at below
      dsimp only at below
      split_ifs at below with up
      · exact isBelow_append below
      · obtain ⟨root, leads, shorter⟩ := isBelow_iff.mp below
        rw [List.length_dropLast] at shorter
        exact Or.inr (isBelow_iff.mpr
          ⟨root, leads.trans (List.dropLast_prefix _), by omega⟩)

end FilePath

namespace Files

variable {files after : Files} {path place other start : FilePath} {parts : List Text}
  {content : List UInt8}

section Places

/-- Everything around the place is a directory. -/
def HasParents (files : Files) (place : FilePath) : Prop :=
  ∀ around, place.isBelow around = true → files.entry? around = some .directory

theorem hasParents_of_walk (parents : files.HasParents start)
    (walked : files.walk path start parts = .ok place) : files.HasParents place := by
  induction parts generalizing start with
  | nil =>
    cases walked
    exact parents
  | cons part rest ih =>
    rw [walk] at walked
    split at walked
    case h_1 directory =>
      split_ifs at walked
      refine ih (fun around below => ?_) walked
      rcases FilePath.isBelow_child below with rfl | below
      · exact directory
      · exact parents around below
    case h_2 => cases walked
    case h_3 => cases walked

/-- What a path leads to lies in directories only. -/
theorem hasParents_of_locate (located : files.locate path = .ok place) :
    files.HasParents place := by
  rw [locate] at located
  split at located
  case h_1 => cases located
  case h_2 =>
    split_ifs at located
    refine hasParents_of_walk (fun around below => ?_) located
    rw [FilePath.not_isBelow_start] at below
    cases below

end Places

section Contents

theorem find?_put_self {contents : List (FilePath × List UInt8)} :
    (put place content contents).find? (fun (other, _) => other = place) = some (place, content) := by
  induction contents with
  | nil => simp [put]
  | cons entry rest ih =>
    obtain ⟨other, old⟩ := entry
    rw [put]
    split_ifs with same
    · simp
    · rw [List.find?_cons_of_neg (by simpa using same)]
      exact ih

theorem find?_put_of_ne {contents : List (FilePath × List UInt8)} (different : other ≠ place) :
    (put place content contents).find? (fun (there, _) => there = other) =
      contents.find? fun (there, _) => there = other := by
  induction contents with
  | nil => simp [put, Ne.symm different]
  | cons entry rest ih =>
    obtain ⟨there, old⟩ := entry
    rw [put]
    split_ifs with same
    · rw [same, List.find?_cons_of_neg (by simpa using Ne.symm different),
        List.find?_cons_of_neg (by simpa using Ne.symm different)]
    · rw [List.find?_cons, List.find?_cons, ih]

/-- The places of the files are those before and the written one. -/
theorem any_put {contents : List (FilePath × List UInt8)} {p : FilePath → Bool} :
    (put place content contents).any (fun (other, _) => p other) =
      (p place || contents.any fun (other, _) => p other) := by
  induction contents with
  | nil => simp [put]
  | cons entry rest ih =>
    obtain ⟨other, old⟩ := entry
    rw [put]
    split_ifs with same
    · rw [same, List.any_cons, List.any_cons, ← Bool.or_assoc]
      exact congrArg (· || _) (Bool.or_self (p place)).symm
    · rw [List.any_cons, List.any_cons, ih, Bool.or_left_comm]

end Contents

/-- A text that leads to a file, or to a place where one may be written. -/
structure NamesFile (files : Files) (t : Text) (place : FilePath) : Prop where
  named : t ≠ []
  located : files.locate (.ofText t) = .ok place
  notDirectory : files.entry? place ≠ some .directory

section Writing

theorem write_eq_ok_iff : files.write path content = .ok after ↔
    ∃ place, files.locate path = .ok place ∧ files.entry? place ≠ some .directory ∧
      after = { files with contents := put place content files.contents } := by
  rw [write]
  cases files.locate path with
  | error e => exact ⟨nofun, fun ⟨_, located, _⟩ => nomatch located⟩
  | ok place =>
    dsimp only
    split
    case h_1 directory =>
      constructor
      · intro wrote
        cases wrote
      · rintro ⟨_, located, notDirectory, -⟩
        cases located
        exact absurd directory notDirectory
    case h_2 notDirectory =>
      constructor
      · intro wrote
        exact ⟨place, rfl, notDirectory, (Except.ok.inj wrote).symm⟩
      · rintro ⟨_, located, -, rfl⟩
        cases located
        rfl

/-- What leads to no directory can be written. -/
theorem NamesFile.write {t : Text} (names : files.NamesFile t place) (content : List UInt8) :
    ∃ after, files.write (.ofText t) content = .ok after :=
  ⟨_, write_eq_ok_iff.mpr ⟨place, names.located, names.notDirectory, rfl⟩⟩

theorem entry?_put_self :
    entry? { files with contents := put place content files.contents } place =
      some (.file content) := by
  rw [ entry?, content?, find?_put_self]
  rfl

/-- Nothing else changes, because the directories around the written file are there already. -/
theorem entry?_put_of_ne (parents : files.HasParents place) (different : other ≠ place) :
    entry? { files with contents := put place content files.contents } other =
      files.entry? other := by
  have directories : hasDirectory { files with contents := put place content files.contents } other =
      files.hasDirectory other := by
    -- What is around the new file is a directory by now, also without it.
    have around : place.isBelow other = true → files.hasDirectory other = true := by
      intro below
      have directory := parents other below
      rw [ entry?] at directory
      split at directory
      · cases directory
      · split_ifs at directory with found
        exact found
    rw [hasDirectory, hasDirectory, any_put (p := (·.isBelow other))]
    cases below : place.isBelow other with
    | false => rw [Bool.false_or]
    | true =>
      have found := around below
      rw [hasDirectory] at found
      rw [Bool.true_or, Bool.or_true, Bool.true_or, found]
  rw [ entry?, entry?, directories, content?, content?, find?_put_of_ne different]

/-- Two states of which the second differs in one file at most. -/
structure AgreeExcept (files after : Files) (place : FilePath) : Prop where
  same : ∀ other, other ≠ place → after.entry? other = files.entry? other
  /-- Where the file is, there was no directory. -/
  notDirectory : files.entry? place ≠ some .directory

theorem agreeExcept_of_write (wrote : files.write path content = .ok after) :
    ∃ place, files.locate path = .ok place ∧ files.AgreeExcept after place ∧
      after.entry? place = some (.file content) := by
  obtain ⟨place, located, notDirectory, rfl⟩ := write_eq_ok_iff.mp wrote
  exact ⟨place, located, ⟨fun other different =>
    entry?_put_of_ne (hasParents_of_locate located) different, notDirectory⟩, entry?_put_self⟩

end Writing

section Reading

/-- A way leads to the same place, because it leads through directories and none of them changes. -/
theorem AgreeExcept.walk (agree : files.AgreeExcept after place)
    (walked : files.walk path start parts = .ok other) :
    after.walk path start parts = .ok other := by
  induction parts generalizing start with
  | nil => exact walked
  | cons part rest ih =>
    rw [Files.walk] at walked ⊢
    split at walked
    case h_1 directory =>
      -- The way goes on from here, so this is a directory and not the written file.
      have different : start ≠ place := by
        rintro rfl
        exact agree.notDirectory directory
      rw [agree.same start different, directory]
      dsimp only
      split_ifs at walked ⊢
      exact ih walked
    case h_2 => cases walked
    case h_3 => cases walked

theorem AgreeExcept.locate (agree : files.AgreeExcept after place)
    (located : files.locate path = .ok other) : after.locate path = .ok other := by
  rw [Files.locate] at located ⊢
  split at located
  case h_1 => cases located
  case h_2 =>
    split_ifs at located ⊢
    exact agree.walk located

/-- The other files are named as before. -/
theorem AgreeExcept.namesFile (agree : files.AgreeExcept after place) {t : Text}
    (names : files.NamesFile t other) (different : other ≠ place) : after.NamesFile t other :=
  ⟨names.named, agree.locate names.located,
    (agree.same other different).symm ▸ names.notDirectory⟩

theorem read_eq_ok_iff : files.read path = .ok content ↔
    ∃ place, files.locate path = .ok place ∧ files.entry? place = some (.file content) := by
  rw [read]
  cases files.locate path with
  | error e => exact ⟨nofun, fun ⟨_, located, _⟩ => nomatch located⟩
  | ok place =>
    dsimp only
    split
    case h_1 found =>
      constructor
      · intro same
        cases same
        exact ⟨place, rfl, found⟩
      · rintro ⟨_, located, entry⟩
        cases located
        cases found.symm.trans entry
        rfl
    case h_2 found =>
      refine ⟨nofun, ?_⟩
      rintro ⟨_, located, entry⟩
      cases located
      cases found.symm.trans entry
    case h_3 found =>
      refine ⟨nofun, ?_⟩
      rintro ⟨_, located, entry⟩
      cases located
      cases found.symm.trans entry

/-- Another file is read as before. -/
theorem AgreeExcept.read (agree : files.AgreeExcept after place)
    (located : files.locate path = .ok other) (different : other ≠ place)
    (read : files.read path = .ok content) : after.read path = .ok content := by
  obtain ⟨there, located', entry⟩ := read_eq_ok_iff.mp read
  cases located.symm.trans located'
  exact read_eq_ok_iff.mpr ⟨other, agree.locate located, (agree.same other different).trans entry⟩

theorem contains_eq_true_iff : files.contains path = .ok true ↔
    ∃ place, files.locate path = .ok place ∧ (files.entry? place).isSome = true := by
  rw [contains]
  split
  case h_1 located =>
    constructor
    · intro there
      exact ⟨_, located, Except.ok.inj there⟩
    · rintro ⟨_, located', there⟩
      cases located.symm.trans located'
      exact congrArg _ there
  case h_2 located => exact ⟨nofun, fun ⟨_, found, _⟩ => nomatch located.symm.trans found⟩
  case h_3 _ located => exact ⟨nofun, fun ⟨_, found, _⟩ => nomatch located.symm.trans found⟩

/-- Another file is there as before. -/
theorem AgreeExcept.contains (agree : files.AgreeExcept after place)
    (located : files.locate path = .ok other) (different : other ≠ place)
    (there : files.contains path = .ok true) : after.contains path = .ok true := by
  obtain ⟨_, located', found⟩ := contains_eq_true_iff.mp there
  cases located.symm.trans located'
  refine contains_eq_true_iff.mpr ⟨other, agree.locate located, ?_⟩
  rwa [agree.same other different]

/-- What was written is read. -/
theorem read_of_write (wrote : files.write path content = .ok after) :
    after.read path = .ok content := by
  obtain ⟨place, located, agree, entry⟩ := agreeExcept_of_write wrote
  exact read_eq_ok_iff.mpr ⟨place, agree.locate located, entry⟩

end Reading

section Sparing

/-- Everything on the way along a path is as before, its end included. -/
def Spares (files after : Files) (path : FilePath) : Prop :=
  ∀ place ∈ path.places, after.entry? place = files.entry? place

theorem walk_of_same
    (same : ∀ place ∈ start.placesFrom parts, after.entry? place = files.entry? place) :
    after.walk path start parts = files.walk path start parts := by
  induction parts generalizing start with
  | nil => rfl
  | cons part rest ih =>
    obtain ⟨first, others⟩ := List.forall_mem_cons.mp same
    rw [walk, walk, first, ih others]

theorem mem_placesFrom_of_walk (walked : files.walk path start parts = .ok place) :
    place ∈ start.placesFrom parts := by
  induction parts generalizing start with
  | nil =>
    cases walked
    exact List.mem_singleton_self _
  | cons part rest ih =>
    rw [walk] at walked
    split at walked
    case h_1 =>
      split_ifs at walked
      exact List.mem_cons_of_mem _ (ih walked)
    case h_2 => cases walked
    case h_3 => cases walked

theorem mem_places_of_locate (located : files.locate path = .ok place) : place ∈ path.places := by
  rw [locate] at located
  split at located
  case h_1 => cases located
  case h_2 =>
    split_ifs at located
    exact mem_placesFrom_of_walk located

namespace Spares

variable (spares : files.Spares after path)
include spares

theorem locate : after.locate path = files.locate path := by
  rw [Files.locate, Files.locate, walk_of_same spares]

theorem read : after.read path = files.read path := by
  rw [Files.read, Files.read, spares.locate]
  cases located : files.locate path with
  | error e => rfl
  | ok place =>
    dsimp only
    rw [spares place (mem_places_of_locate located)]

theorem contains : after.contains path = files.contains path := by
  rw [Files.contains, Files.contains, spares.locate]
  cases located : files.locate path with
  | error e => cases e <;> rfl
  | ok place =>
    dsimp only
    rw [spares place (mem_places_of_locate located)]

omit spares in
theorem namesFile {t : Text} (spares : files.Spares after (.ofText t))
    (names : files.NamesFile t place) : after.NamesFile t place :=
  ⟨names.named, spares.locate.trans names.located,
    (spares place (mem_places_of_locate names.located)).symm ▸ names.notDirectory⟩

end Spares

end Sparing

end Files

end BitLayout
