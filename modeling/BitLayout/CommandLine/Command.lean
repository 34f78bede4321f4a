import BitLayout.CommandLine.Arguments

/-!
# Commands

The commands of the program with their words. What the program is asked for is read off its
arguments in two steps: the words before a command by the grammar of the program, those after it by
the grammar of the command.

## Main definitions

* `Command`: what to do with which files
* `CommandKind`, `CommandKind.grammar`, `CommandKind.command`
* `programGrammar`
* `Request`, `Request.ofWords`
-/

namespace BitLayout.CommandLine

/-- What to do with which files. A layout is given as a reference into a schema file; an empty
output path stands for the standard output. Words may leave out any operand. -/
inductive Command where
  /-- Reports the sizes of the layouts in a schema file. -/
  | analyze (file : Option Text)
  /-- Turns bytes into a JSON document. -/
  | decode (schema input : Option Text) (output : Text) (strict : Bool)
  /-- Turns a JSON document into bytes. -/
  | encode (schema input : Option Text) (output : Text)

/-- The sort of a command. -/
inductive CommandKind where
  | analyze
  | decode
  | encode
deriving DecidableEq

/-- The name of the program. -/
def programName : Text := "bitschema"

/-- The name and the version of the program. -/
def versionText : Text := programName ++ " 0.1.0"

/-- The option that asks for help. -/
def helpOption : OptionSpec := ⟨["-h", "--help"], .help, "show this help message and exit"⟩

/-- The option that asks for the version. -/
def versionOption : OptionSpec :=
  ⟨["--version"], .version, "show program's version number and exit"⟩

/-- The option that turns the log on. -/
def verboseOption : OptionSpec := ⟨["-v", "--verbose"], .flag, "Log debug output to stderr"⟩

/-- The option that refuses whole bytes left over. -/
def strictOption : OptionSpec := ⟨["--strict"], .flag, "Fail if whole bytes are left over"⟩

/-- The option that names the file to write. -/
def outputOption (content : Text) : OptionSpec :=
  ⟨["-o", "--output"], .value "OUT", "Write " ++ content ++ " here (default: stdout)"⟩

namespace CommandKind

/-- All sorts of commands. -/
def all : List CommandKind := [.analyze, .decode, .encode]

/-- The word that calls a command. -/
def name : CommandKind → Text
  | .analyze => "analyze"
  | .decode => "decode"
  | .encode => "encode"

/-- The sort of command that a word calls. -/
def ofName? (word : Text) : Option CommandKind := all.find? (·.name = word)

/-- What a command does, for the help of the program. -/
def summary : CommandKind → Text
  | .analyze => "Show the size of every schema in a file"
  | .decode => "Decode a binary file to JSON"
  | .encode => "Encode a JSON file to binary"

/-- The options of a command besides help. -/
def options : CommandKind → List OptionSpec
  | .analyze => []
  | .decode => [outputOption "JSON", strictOption]
  | .encode => [outputOption "bytes"]

/-- The operands of a command. -/
def operands : CommandKind → List (Text × Text)
  | .analyze => [("FILE", "Python file defining schemas")]
  | .decode => [("FILE:NAME", "Schema to decode with"), ("INPUT", "Binary file to decode")]
  | .encode => [("FILE:NAME", "Schema to encode with"), ("INPUT", "JSON file to encode")]

/-- The words of a command. -/
def grammar (kind : CommandKind) : Grammar where
  program := programName ++ " " ++ kind.name
  description := []
  options := helpOption :: kind.options
  operands := .fixed kind.operands
  epilog := []

/-- The command that arguments make. -/
def command (kind : CommandKind) (arguments : Arguments) : Command :=
  let operand (index : Nat) : Option Text := arguments.operands[index]?.join
  let output : Text := (arguments.value? "--output").getD []
  match kind with
  | .analyze => .analyze (operand 0)
  | .decode => .decode (operand 0) (operand 1) output (arguments.has "--strict")
  | .encode => .encode (operand 0) (operand 1) output

end CommandKind

/-- The words of the program. -/
def programGrammar : Grammar where
  program := programName
  description := "bitschema: Declarative Binary Layouts"
  options := [helpOption, versionOption, verboseOption]
  operands := .command "COMMAND" (CommandKind.all.map fun kind => (kind.name, kind.summary))
  epilog := Text.joined "\n"
    ["Examples:",
     "  bitschema analyze schemas.py                          Show field sizes",
     "  bitschema decode schemas.py:INSTRUMENTS dump.bin      Decode to JSON",
     "  bitschema encode schemas.py:INSTRUMENTS dump.json -o dump.bin",
     "  bitschema --version                                   Show version",
     Text.repeated 8 " "]

/-- What the program is asked for. -/
inductive Request where
  | help (grammar : Grammar)
  | version
  | usageError (grammar : Grammar) (error : UsageError)
  | command (verbose : Bool) (command : Command)

namespace Request

/-- The request in place of which reading words stopped. -/
def ofStop (grammar : Grammar) : Stop → Request
  | .help => .help grammar
  | .version => .version
  | .usage error => .usageError grammar error

/-- The request, unless there are words that fit nowhere. -/
def unlessExtras (extras : List Text) (request : Request) : Request :=
  if extras.isEmpty then request else .usageError programGrammar (.unrecognized extras)

/-- The command that is called, with the words after it. -/
def called? (arguments : Arguments) : Option (CommandKind × List Text) := do
  let (word, rest) ← arguments.command
  let kind ← CommandKind.ofName? word
  some (kind, rest)

/-- What the words after the name of the program ask for. Words that fit nowhere are reported after
everything else; without a command the program shows its help. -/
def ofWords (words : List Text) : Request :=
  match programGrammar.read words with
  | .error stop => ofStop programGrammar stop
  | .ok arguments =>
    match called? arguments with
    | none => unlessExtras arguments.extras (.help programGrammar)
    | some (kind, rest) =>
      let grammar := kind.grammar
      match grammar.read rest with
      | .error stop => ofStop grammar stop
      | .ok inner =>
        unlessExtras (arguments.extras ++ inner.extras)
          (.command (arguments.has "--verbose") (kind.command inner))

end Request

end BitLayout.CommandLine
