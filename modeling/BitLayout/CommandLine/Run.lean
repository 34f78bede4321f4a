import BitLayout.CommandLine.Command
import BitLayout.CommandLine.SchemaFile
import BitLayout.Decoder
import BitLayout.Encoder
import BitLayout.Json.Printer
import BitLayout.Json.Reader
import BitLayout.Report

/-!
# Running commands

A command is run in three steps: it imports a module and reads what else it needs among the files,
works out its whole result, and only then delivers the result to the standard output or to a file.

## Main definitions

* `documentOf`: the JSON document of a byte string
* `bytesOf`: the byte string of a JSON document
* `Outcome`: what a run shows and leaves behind
* `Command.run`, `run`
-/

namespace BitLayout.CommandLine

/-- The JSON document of a byte string. -/
def documentOf (layout : Layout) (data : List UInt8) (strict : Bool) :
    Except CommandError Text := do
  let value ← (layout.decodeBytes data strict).mapError .failure
  (Json.print .indented value.toTransport).mapError .jsonPrint

/-- The document with all line ends written as a line feed. -/
def withLineFeeds : Text → Text
  | [] => []
  | c :: rest =>
    if c = CodePoint.ofChar '\r' then
      match rest with
      | [] => [.ofChar '\n']
      | d :: others =>
        if d = CodePoint.ofChar '\n' then .ofChar '\n' :: withLineFeeds others
        else .ofChar '\n' :: withLineFeeds (d :: others)
    else c :: withLineFeeds rest

/-- The value that a JSON file holds. -/
def valueOf (content : List UInt8) : Except CommandError Value := do
  let document := withLineFeeds (← (Encoding.utf8.decode content).mapError .undecodable)
  let transport ← (Json.read document).mapError (.json document)
  transport.ofTransport.mapError .transport

/-- A line of the log. -/
def logLine (source line : Text) : Text := "DEBUG bitschema.codec." ++ source ++ ": " ++ line

/-- What is logged about decoding: its start and, if it comes to an end, where. -/
def decodingLog (layout : Layout) (data : List UInt8) (strict : Bool) : List Text :=
  let source : Text := "decoder"
  let kind := layout.kind.name
  logLine source ("Decoding " ++ kind ++ " from " ++ Text.ofNat (8 * data.length) ++ " bits") ::
    match layout.decodeBytes data strict, layout.read data with
    | .ok _, .ok (_, r) =>
      [logLine source ("Decoded " ++ kind ++ ", cursor at byte " ++ Text.ofNat r.byteIndex ++
        " bit " ++ Text.ofNat r.bitOffset)]
    | _, _ => []

/-- What is logged about encoding: its start and, if it comes to an end, how much was written. -/
def encodingLog (memory : Memory) (layout : Layout) (value : Value) : List Text :=
  let source : Text := "encoder"
  let kind := layout.kind.name
  logLine source ("Encoding " ++ kind ++ " from " ++ value.typeName) ::
    match layout.writeWithin memory value with
    | .ok w =>
      [logLine source ("Encoded " ++ kind ++ " into " ++ Text.ofNat w.bitLength ++ " bits")]
    | .error _ => []

/-- How a run ends. -/
inductive Ending where
  /-- With a status that the program returns. -/
  | returned
  /-- With an error, before the program could report anything. -/
  | broken (error : CommandError)
  /-- In a module that stops the program. -/
  | exited

/-- What a run shows and leaves behind. -/
structure Outcome extends Trace where
  /-- The exit status, zero for success. -/
  status : Nat
  ending : Ending

namespace Outcome

/-- A run that succeeds and prints a result at last. -/
def succeeded (trace : Trace) (output : List UInt8) : Outcome :=
  ⟨{ trace with output := trace.output ++ output }, 0, .returned⟩

/-- A run that prints a text at last. -/
def printed (trace : Trace) (t : Text) : Outcome :=
  match Encoding.utf8.encode t with
  | .ok bytes => .succeeded trace bytes
  | .error _ => .succeeded trace []

/-- A run that stops early. -/
def failed (trace : Trace) (error : CommandError) : Outcome :=
  ⟨{ trace with messages := trace.messages ++ "Error: " ++ error.message.shown ++ "\n" }, 1,
    .returned⟩

/-- A run that breaks off. -/
def broken (trace : Trace) (error : CommandError) : Outcome := ⟨trace, 1, .broken error⟩

/-- A run that goes no further. -/
def halted (trace : Trace) : Halt → Outcome
  | .error error => .failed trace error
  | .exit status => ⟨trace, status, .exited⟩

end Outcome

/-- Prints a result, or writes it to a file if there is a path. -/
def deliver (trace : Trace) (path : Text) (content : List UInt8) : Outcome :=
  if path.isEmpty then .succeeded trace content
  else match trace.files.write (.ofText path) content with
    | .ok after => .succeeded { trace with files := after } []
    | .error error => .failed trace (.file error)

/-- Prints a report as far as it goes. -/
def printReport (trace : Trace) (report : Report) : Outcome :=
  let outcome := Outcome.printed trace report.text
  match report.error with
  | none => outcome
  | some error => .failed outcome.toTrace (.report error)

/-- The report on a module. -/
def reportOn (path : FilePath) (definitions : List Definition) : Report :=
  match SchemaFile.layouts definitions with
  | [] => .line ("No schemas found in " ++ path.render)
  | layouts => .ofLayouts layouts

namespace Command

/-- Reports the sizes of the layouts in a module. A path that cannot be looked up breaks the run
off. -/
def runAnalyze (importer : Importer) (files : Files) (file : Option Text) : Outcome :=
  match file with
  | none => .broken (.untouched files) .fileLeftOut
  | some file =>
    let path := FilePath.ofText file
    match files.contains path with
    | .error error => .broken (.untouched files) (.file error)
    | .ok false => .failed (.untouched files) (.schemaFileNotFound path)
    | .ok true =>
      let (trace, loaded) := SchemaFile.load importer files path
      match loaded with
      | .error halt => .halted trace halt
      | .ok definitions => printReport trace (reportOn path definitions)

/-- The content of a file argument. -/
def readOperand (files : Files) (input : Option Text) : Except CommandError (List UInt8) :=
  match input with
  | none => .error .fileLeftOut
  | some input => (files.read (.ofText input)).mapError .file

/-- The layout that a schema argument calls and the content of a file argument, in this order, with
what importing the module has left behind. -/
def load (importer : Importer) (files : Files) (schema input : Option Text) :
    Trace × Except Halt (Layout × List UInt8) :=
  match schema with
  | none => (.untouched files, .error (.error .schemaLeftOut))
  | some schema =>
    let (trace, found) := SchemaFile.findLayout importer files schema
    (trace, do
      let layout ← found
      let content ← (readOperand trace.files input).mapError .error
      .ok (layout, content))

/-- Decodes bytes and delivers the document with a line feed after it. -/
def deliverDocument (trace : Trace) (layout : Layout) (data : List UInt8) (output : Text)
    (strict : Bool) : Outcome :=
  match documentOf layout data strict with
  | .error error => .failed trace error
  | .ok document =>
    match Encoding.utf8.encode (document ++ "\n") with
    | .error fault => .failed trace (.unencodable fault)
    | .ok content => deliver trace output content

/-- Encodes a value and delivers the bytes. -/
def deliverBytes (memory : Memory) (trace : Trace) (layout : Layout) (value : Value)
    (output : Text) : Outcome :=
  match layout.encodeWithin memory value with
  | .error failure => .failed trace (.failure failure)
  | .ok bytes => deliver trace output bytes

/-- Decodes a file. -/
def runDecode (importer : Importer) (files : Files) (schema input : Option Text) (output : Text)
    (strict verbose : Bool) : Outcome :=
  let (trace, loaded) := load importer files schema input
  match loaded with
  | .error halt => .halted trace halt
  | .ok (layout, data) =>
    let log := if verbose then decodingLog layout data strict else []
    deliverDocument (trace.logged log) layout data output strict

/-- Encodes a document. -/
def runEncode (importer : Importer) (memory : Memory) (files : Files)
    (schema input : Option Text) (output : Text) (verbose : Bool) : Outcome :=
  let (trace, loaded) := load importer files schema input
  match loaded with
  | .error halt => .halted trace halt
  | .ok (layout, content) =>
    match valueOf content with
    | .error error => .failed trace error
    | .ok value =>
      let log := if verbose then encodingLog memory layout value else []
      deliverBytes memory (trace.logged log) layout value output

/-- Runs a command. -/
def run (importer : Importer) (memory : Memory) (files : Files) (verbose : Bool) :
    Command → Outcome
  | .analyze file => runAnalyze importer files file
  | .decode schema input output strict =>
    runDecode importer files schema input output strict verbose
  | .encode schema input output => runEncode importer memory files schema input output verbose

end Command

/-- Messages as they are printed: a surrogate has no bytes and shows as an escape. -/
def printedMessages (t : Text) : Text :=
  t.flatMap fun c => if c.isSurrogate then c.escaped else [c]

/-- Runs the program on the words after its name. -/
def run (importer : Importer) (memory : Memory) (files : Files) (words : List Text) : Outcome :=
  let outcome :=
    match Request.ofWords words with
    | .help grammar => Outcome.printed (.untouched files) grammar.help
    | .version => .printed (.untouched files) (versionText ++ "\n")
    | .usageError grammar error =>
      ⟨⟨files, [], grammar.usage ++ grammar.program ++ ": error: " ++ error.message ++ "\n"⟩, 2,
        .returned⟩
    | .command verbose command => command.run importer memory files verbose
  { outcome with messages := printedMessages outcome.messages }

end BitLayout.CommandLine
