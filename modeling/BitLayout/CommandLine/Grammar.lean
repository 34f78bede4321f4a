import BitLayout.Text.Quoted

/-!
# Command-line grammars

What the words after a program's name may be: options in any place, some of them with a value, and
operands in order or a command with words of its own. A grammar prints its usage and its help.

## Main definitions

* `OptionSpec`, `Operands`, `Grammar`
* `Grammar.usage`, `Grammar.help`
-/

namespace BitLayout.CommandLine

/-- What an option does. -/
inductive OptionEffect where
  | help
  | version
  /-- Turns something on. -/
  | flag
  /-- Takes the word after it, which the usage shows by a placeholder. -/
  | value (placeholder : Text)
deriving DecidableEq

/-- An option with all its spellings. -/
structure OptionSpec where
  spellings : List Text
  effect : OptionEffect
  help : Text
deriving DecidableEq

/-- Words that are no options. -/
inductive Operands where
  /-- A fixed number of operands, each with a placeholder and a help text. -/
  | fixed (operands : List (Text × Text))
  /-- One of several commands, each with a help text, and the words that belong to it. -/
  | command (placeholder : Text) (commands : List (Text × Text))

/-- The words that a program or command takes. -/
structure Grammar where
  program : Text
  description : Text
  options : List OptionSpec
  operands : Operands
  epilog : Text

namespace OptionSpec

/-- Whether the option takes a value. -/
def takesValue (o : OptionSpec) : Bool :=
  match o.effect with
  | .value _ => true
  | _ => false

/-- The name of the option in messages: all its spellings. -/
def name (o : OptionSpec) : Text := Text.joined "/" o.spellings

/-- A spelling with the placeholder of the value. -/
def withPlaceholder (o : OptionSpec) (spelling : Text) : Text :=
  match o.effect with
  | .value placeholder => spelling ++ " " ++ placeholder
  | _ => spelling

/-- The option in a usage line. -/
def usage (o : OptionSpec) : Text := "[" ++ o.withPlaceholder (o.spellings.head?.getD []) ++ "]"

/-- The option in a help text. -/
def invocation (o : OptionSpec) : Text := Text.joined ", " (o.spellings.map o.withPlaceholder)

end OptionSpec

namespace Grammar

/-- The operands in a usage line. -/
def operandUsage (g : Grammar) : List Text :=
  match g.operands with
  | .fixed operands => operands.map Prod.fst
  | .command placeholder _ => [placeholder, "..."]

/-- The usage line. -/
def usage (g : Grammar) : Text :=
  "usage: " ++ Text.joined " " (g.program :: g.options.map OptionSpec.usage ++ g.operandUsage) ++
    "\n"

/-- A line of a help text: what is explained and how far it is indented, and the explanation. -/
structure HelpLine where
  indent : Nat
  subject : Text
  explanation : Text

/-- The lines on operands. -/
def operandLines (g : Grammar) : List HelpLine :=
  match g.operands with
  | .fixed operands => operands.map fun (placeholder, help) => ⟨2, placeholder, help⟩
  | .command placeholder commands =>
    ⟨2, placeholder, []⟩ :: commands.map fun (name, help) => ⟨4, name, help⟩

/-- The lines on options. -/
def optionLines (g : Grammar) : List HelpLine :=
  g.options.map fun o => ⟨2, o.invocation, o.help⟩

/-- The column of the explanations: two after the widest subject, and at most the
twenty-fourth. -/
def helpColumn (lines : List HelpLine) : Nat :=
  min 24 ((lines.map fun line => line.indent + line.subject.length + 2).foldl max 0)

/-- A line with its explanation in the given column. -/
def HelpLine.render (column : Nat) (line : HelpLine) : Text :=
  let left := Text.repeated line.indent " " ++ line.subject
  if line.explanation.isEmpty then left ++ "\n"
  else left ++ Text.repeated (column - left.length) " " ++ line.explanation ++ "\n"

/-- A part of a help text under a heading. -/
def helpSection (heading : Text) (column : Nat) (lines : List HelpLine) : Text :=
  "\n" ++ heading ++ ":\n" ++ lines.flatMap (HelpLine.render column)

/-- A paragraph after an empty line; nothing if it is empty. -/
def paragraph (t : Text) : Text := if t.isEmpty then [] else "\n" ++ t ++ "\n"

/-- The help text. -/
def help (g : Grammar) : Text :=
  let column := helpColumn (g.operandLines ++ g.optionLines)
  g.usage ++ paragraph g.description ++ helpSection "positional arguments" column g.operandLines ++
    helpSection "options" column g.optionLines ++ paragraph g.epilog

end Grammar

end BitLayout.CommandLine
