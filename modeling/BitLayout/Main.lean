import BitLayout.CommandLine.Run

/-!
# The program

Reads the files that the arguments name, runs the command on them, prints what it prints and writes
the files that it changes. Modules are imported by what the caller has for this.
-/

namespace BitLayout.CommandLine

/-- The path in a reference into a schema file, if there is one. -/
def schemaPath (schema : Text) : List FilePath :=
  match SchemaFile.splitReference schema with
  | .ok (path, _) => [path]
  | .error _ => []

/-- The paths that the arguments of a command name. -/
def commandPaths (schema input : Option Text) (output : Text) : List FilePath :=
  schema.toList.flatMap schemaPath ++ (input.toList ++ [output]).map FilePath.ofText

/-- The paths that a request names. -/
def requestedPaths : Request → List FilePath
  | .command _ (.analyze file) => (file.map FilePath.ofText).toList
  | .command _ (.decode schema input output _) => commandPaths schema input output
  | .command _ (.encode schema input output) => commandPaths schema input output
  | _ => []

/-- Adds what is at a place. -/
def addPlace (files : Files) (place : FilePath) : IO Files := do
  let path := (← IO.currentDir) / place.render.toString
  if ← path.isDir then return { files with directories := place :: files.directories }
  else if ← path.pathExists then
    let content ← IO.FS.readBinFile path
    return { files with contents := (place, content.toList) :: files.contents }
  else return files

/-- Runs the program and ends with its exit status. -/
def program (importer : Importer) (arguments : List String) : IO UInt32 := do
  let words := arguments.map Text.ofString
  let places := ((requestedPaths (Request.ofWords words)).flatMap FilePath.places).eraseDups
  let files ← places.foldlM addPlace ⟨[], []⟩
  let outcome := run importer .ordinary files words
  for (place, content) in files.changes outcome.files do
    IO.FS.writeBinFile ((← IO.currentDir) / place.render.toString) ⟨content.toArray⟩
  let output ← IO.getStdout
  output.write ⟨outcome.output.toArray⟩
  output.flush
  let complaint : Text :=
    match outcome.ending with
    | .broken error => error.message.shown ++ "\n"
    | .returned | .exited => outcome.messages
  (← IO.getStderr).putStr complaint.toString
  return UInt32.ofNat outcome.status

end BitLayout.CommandLine
