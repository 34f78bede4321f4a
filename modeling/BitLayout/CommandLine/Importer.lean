import BitLayout.CommandLine.Files
import BitLayout.Text.Wording
import BitLayout.Value.Basic

/-!
# Importing modules

A module is a file with code of its own, which runs when it is imported: it may print, change files
and stop the program. How this goes is not part of this development: what imports modules is a
parameter of the commands, and what is assumed of it is stated where it is used.

## Main definitions

* `Definition`: what a module gives a name to
* `Trace`: what a run has left behind so far
* `Importer`: what imports modules
-/

namespace BitLayout.CommandLine

/-- A name that a module binds to a value. -/
structure Definition where
  name : Text
  value : Value
  /-- Whether the value is one of the layouts with a name of their own, and not just like one. -/
  isPredefined : Bool

/-- What a run has left behind so far: files, and what it printed to the standard output and to the
standard error. -/
structure Trace where
  files : Files
  output : List UInt8
  messages : Text

namespace Trace

/-- Nothing has been done yet. -/
def untouched (files : Files) : Trace := ⟨files, [], []⟩

/-- The trace with lines of a log. -/
def logged (trace : Trace) (log : List Text) : Trace :=
  { trace with messages := trace.messages ++ log.flatMap fun line => line ++ ("\n" : Text) }

end Trace

/-- How the code of a module ends. -/
inductive ImportEnding where
  /-- With names, of two definitions of one name the later one. -/
  | defined (definitions : List Definition)
  /-- With an error that can be reported. -/
  | raised (message : Wording)
  /-- With the end of the whole program. -/
  | exited (status : Nat)

/-- What imports modules. -/
structure Importer where
  /-- Whether there is a loader for a file. -/
  loads : FilePath → Bool
  /-- What the code of a module leaves behind and how it ends. -/
  run : Files → FilePath → Trace × ImportEnding

end BitLayout.CommandLine
