import BitLayout.CommandLine.Files
import BitLayout.Failure
import BitLayout.Json.Error
import BitLayout.Json.Transport
import BitLayout.Report

/-!
# Command failures

Why a command stops, and the wording of each reason.

## Main definitions

* `CommandError`, `CommandError.message`
-/

namespace BitLayout.CommandLine

/-- Why a command stops. -/
inductive CommandError where
  /-- No schema argument where there has to be one. -/
  | schemaLeftOut
  /-- No file argument where there has to be one. -/
  | fileLeftOut
  /-- A schema argument without a file or without a name. -/
  | schemaReference (reference : Text)
  /-- A schema file that is not there. -/
  | schemaFileNotFound (path : FilePath)
  /-- A file that there is no loader for. -/
  | notLoadable (path : FilePath)
  /-- A name that a module gives to no layout. -/
  | notLayout (name : Text) (path : FilePath)
  | file (error : FileError)
  /-- What a module raises while it is imported. -/
  | imported (message : Wording)
  | report (error : ReportError)
  | failure (failure : Failure)
  | transport (error : TransportError)
  | json (document : Text) (fault : JsonFault)
  | jsonPrint (error : JsonPrintError)
  | undecodable (fault : DecodeFault)
  | unencodable (fault : EncodeFault)

/-- The wording of a reason. -/
def CommandError.message : CommandError → Wording
  | .schemaLeftOut => "'list' object has no attribute 'rpartition'"
  | .fileLeftOut => "expected str, bytes or os.PathLike object, not list"
  | .schemaReference reference => "Schema must be given as FILE:NAME, got " ++ reference.quoted
  | .schemaFileNotFound path => "File not found: " ++ path.render
  | .notLoadable path => "Could not load module from " ++ path.render
  | .notLayout name path => name.quoted ++ " in " ++ path.render ++ " is not a schema node"
  | .file error => error.message
  | .imported message => message
  | .report error => error.message
  | .failure inner => inner.message
  | .transport error => error.message
  | .json document fault => fault.message document
  | .jsonPrint error => error.message
  | .undecodable fault => fault.message
  | .unencodable fault => fault.message

end BitLayout.CommandLine
