import BitLayout.CommandLine.Error
import BitLayout.CommandLine.Importer

/-!
# Schemas in modules

A layout in a module is called by the path of the file and the name, with a colon between them.

## Main definitions

* `Halt`: why a run goes no further
* `SchemaFile.load`: a module with its definitions
* `SchemaFile.layouts`: the layouts that are analysed, in the order of their names
* `SchemaFile.findLayout`: the layout that a reference calls
-/

namespace BitLayout.CommandLine

/-- Why a run goes no further. -/
inductive Halt where
  | error (error : CommandError)
  /-- A module has ended the program. -/
  | exit (status : Nat)

namespace SchemaFile

/-- The definitions of a module, with what importing it has left behind. -/
def load (importer : Importer) (files : Files) (path : FilePath) :
    Trace × Except Halt (List Definition) :=
  if importer.loads path then
    let (trace, ending) := importer.run files path
    (trace,
      match ending with
      | .defined definitions => .ok definitions
      | .raised message => .error (.error (.imported message))
      | .exited status => .error (.exit status))
  else (.untouched files, .error (.error (.notLoadable path)))

/-- The last definition of a name. -/
def find? (definitions : List Definition) (name : Text) : Option Definition :=
  definitions.reverse.find? (·.name = name)

/-- The names that are defined, each once and in order. -/
def names (definitions : List Definition) : List Text :=
  (definitions.map Definition.name).eraseDups.mergeSort Text.precedes

/-- Whether a name is for use inside the module only. -/
def isHidden (name : Text) : Bool := name.startsWith "_"

/-- The layout that a definition shows, unless it is a predefined one. -/
def shownLayout? (definition : Definition) : Option Layout :=
  match definition.value with
  | .ofLayout layout => if definition.isPredefined then none else some layout
  | _ => none

/-- The layouts that are analysed, in the order of their names. -/
def layouts (definitions : List Definition) : List (Text × Layout) :=
  (names definitions).filterMap fun name =>
    if isHidden name then none
    else do
      let definition ← find? definitions name
      let layout ← shownLayout? definition
      some (name, layout)

/-- The path and the name in a reference. The last colon divides them. -/
def splitReference (reference : Text) : Except CommandError (FilePath × Text) :=
  match reference.splitLast? (.ofChar ':') with
  | none => .error (.schemaReference reference)
  | some (path, name) =>
    if path.isEmpty || name.isEmpty then .error (.schemaReference reference)
    else .ok (.ofText path, name)

/-- The layout that a module gives a name to. -/
def named (definitions : List Definition) (path : FilePath) (name : Text) :
    Except CommandError Layout :=
  match (find? definitions name).map Definition.value with
  | some (.ofLayout layout) => .ok layout
  | _ => .error (.notLayout name path)

/-- The layout that a reference calls, with what importing its module has left behind. -/
def findLayout (importer : Importer) (files : Files) (reference : Text) :
    Trace × Except Halt Layout :=
  match splitReference reference with
  | .error error => (.untouched files, .error (.error error))
  | .ok (path, name) =>
    match files.contains path with
    | .error error => (.untouched files, .error (.error (.file error)))
    | .ok false => (.untouched files, .error (.error (.schemaFileNotFound path)))
    | .ok true =>
      let (trace, loaded) := load importer files path
      (trace, loaded >>= fun definitions => (named definitions path name).mapError .error)

end SchemaFile

end BitLayout.CommandLine
