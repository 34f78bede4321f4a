import BitLayout.CommandLine.Grammar
import BitLayout.Text.DecimalDigit

/-!
# Reading command-line words

Words are sorted into options and operands first and then taken from left to right. A long option
may be cut short as long as it stays unambiguous, a short option may have its value in the same
word, and short options without a value may share a word. After a separator `--` all words are
operands. A second separator in place of a value leaves that value out.

## Main definitions

* `UsageError`, `UsageError.message`
* `Arguments`: what the words of one grammar come to
* `Grammar.read`
-/

namespace BitLayout.CommandLine

/-- Why words do not fit a grammar. -/
inductive UsageError where
  | ambiguousOption (word : Text) (matching : List Text)
  | expectedArgument (option : Text)
  /-- A value given to an option that takes none. -/
  | ignoredArgument (option value : Text)
  | invalidChoice (placeholder word : Text) (choices : List Text)
  | missingOperands (placeholders : List Text)
  | unrecognized (words : List Text)

/-- The wording of a reason. -/
def UsageError.message : UsageError → Text
  | .ambiguousOption word matching =>
    "ambiguous option: " ++ word ++ " could match " ++ Text.joined ", " matching
  | .expectedArgument option => "argument " ++ option ++ ": expected one argument"
  | .ignoredArgument option value =>
    "argument " ++ option ++ ": ignored explicit argument " ++ value.quoted
  | .invalidChoice placeholder word choices =>
    "argument " ++ placeholder ++ ": invalid choice: " ++ word.quoted ++ " (choose from " ++
      Text.joined ", " (choices.map Text.quoted) ++ ")"
  | .missingOperands placeholders =>
    "the following arguments are required: " ++ Text.joined ", " placeholders
  | .unrecognized words => "unrecognized arguments: " ++ Text.joined " " words

/-- A word that may be an option. -/
structure OptionWord where
  /-- The option, `none` if the grammar has no such option. -/
  option : Option OptionSpec
  spelling : Text
  /-- The value in the same word. -/
  attached : Option Text

/-- The sort of a word. -/
inductive WordSort where
  | operand
  | option (word : OptionWord)
  /-- The first `--`. -/
  | separator

/-- The code point with which options start. -/
def dash : CodePoint := .ofChar '-'

/-- The word after which all others are operands. -/
def separatorWord : Text := [dash, dash]

/-- One or more digits and nothing else. -/
def isDigits (t : Text) : Bool := !t.isEmpty && t.all CodePoint.isDecimalDigit

/-- The text without a line feed at its end. -/
def dropFinalLineFeed (t : Text) : Text :=
  if t.getLast? = some (CodePoint.ofChar '\n') then t.dropLast else t

/-- A word that looks like a negative number, perhaps with a line feed after it. -/
def isNegativeNumber (word : Text) : Bool :=
  match dropFinalLineFeed word with
  | [] => false
  | first :: rest =>
    first = dash && (isDigits rest ||
      match Text.splitFirst? (.ofChar '.') rest with
      | some (whole, fraction) => (whole.isEmpty || isDigits whole) && isDigits fraction
      | none => false)

namespace Grammar

/-- The option with the given spelling. -/
def find? (g : Grammar) (spelling : Text) : Option OptionSpec :=
  g.options.find? (·.spellings.contains spelling)

/-- All spellings with their options. -/
def spellings (g : Grammar) : List (Text × OptionSpec) :=
  g.options.flatMap fun o => o.spellings.map fun spelling => (spelling, o)

/-- The options that a word with two dashes may be short for. -/
def longMatches (g : Grammar) (word : Text) : List OptionWord :=
  let (lead, attached) :=
    match Text.splitFirst? (.ofChar '=') word with
    | some (lead, value) => (lead, some value)
    | none => (word, none)
  g.spellings.filterMap fun (spelling, o) =>
    if Text.startsWith spelling lead then some ⟨some o, spelling, attached⟩ else none

/-- The options that a word with one dash may be, either a short option with a value in the same
word or the start of another spelling. -/
def shortMatches (g : Grammar) (word : Text) : List OptionWord :=
  g.spellings.filterMap fun (spelling, o) =>
    if spelling = word.take 2 then some ⟨some o, spelling, some (word.drop 2)⟩
    else if Text.startsWith spelling word then some ⟨some o, spelling, none⟩
    else none

/-- The sort of a word that is neither an option in full nor the separator. -/
def sortByMatches (g : Grammar) (word : Text) : Except UsageError WordSort :=
  let candidates :=
    if Text.startsWith word separatorWord then g.longMatches word else g.shortMatches word
  match candidates with
  | [candidate] => .ok (.option candidate)
  | _ :: _ :: _ => .error (.ambiguousOption word (candidates.map OptionWord.spelling))
  | [] =>
    if isNegativeNumber word || word.contains (.ofChar ' ') then .ok .operand
    else .ok (.option ⟨none, word, none⟩)

/-- The sort of a word before any separator. -/
def sort (g : Grammar) (word : Text) : Except UsageError WordSort :=
  match word with
  | [] => .ok .operand
  | first :: rest =>
    if first ≠ dash then .ok .operand
    else match g.find? word with
      | some o => .ok (.option ⟨some o, word, none⟩)
      | none =>
        if rest.isEmpty then .ok .operand
        else match Text.splitFirst? (.ofChar '=') word with
          | none => g.sortByMatches word
          | some (lead, value) =>
            match g.find? lead with
            | some o => .ok (.option ⟨some o, lead, some value⟩)
            | none => g.sortByMatches word

/-- The sorts of all words. -/
def sortAll (g : Grammar) : List Text → Except UsageError (List (Text × WordSort))
  | [] => .ok []
  | word :: rest =>
    if word = separatorWord then
      .ok ((word, .separator) :: rest.map fun word => (word, .operand))
    else do
      let sort ← g.sort word
      let others ← sortAll g rest
      .ok ((word, sort) :: others)

/-- The options in one word: those that are complete and one that needs the next word as its value.
-/
structure OptionGroup where
  complete : List (OptionSpec × Text)
  pending : Option OptionSpec

/-- A value that an option is given, which is left out if it is a separator. -/
def givenValue (value : Text) : Text := if value = separatorWord then [] else value

/-- A group with one more option without a value at its front. -/
def OptionGroup.cons (o : OptionSpec) (group : OptionGroup) : OptionGroup :=
  { group with complete := (o, []) :: group.complete }

/-- A group of a single option without a value in the same word. -/
def OptionGroup.single (o : OptionSpec) : OptionGroup :=
  if o.takesValue then ⟨[], some o⟩ else ⟨[(o, [])], none⟩

/-- The options in a word of short ones from `o` on, which takes no value, with the rest of the word
after it. -/
def shortGroup (g : Grammar) (o : OptionSpec) : Text → Except UsageError OptionGroup
  | [] => .ok (.single o)
  | letter :: rest =>
    match g.find? [dash, letter] with
    | none => .error (.ignoredArgument o.name (letter :: rest))
    | some next =>
      if rest.isEmpty then .ok (.cons o (.single next))
      else if next.takesValue then .ok (.cons o ⟨[(next, givenValue rest)], none⟩)
      else OptionGroup.cons o <$> shortGroup g next rest

/-- The options in the word of `o`. An option that takes no value may share its word with others if
it is a short one. -/
def group (g : Grammar) (o : OptionSpec) (word : OptionWord) : Except UsageError OptionGroup :=
  match word.attached with
  | none => .ok (.single o)
  | some value =>
    if o.takesValue then .ok ⟨[(o, givenValue value)], none⟩
    else if value.isEmpty || Text.startsWith word.spelling separatorWord then
      .error (.ignoredArgument o.name value)
    else g.shortGroup o value

end Grammar

/-- What the words of one grammar come to. -/
structure Arguments where
  /-- The options that were given, with their values, in order. -/
  options : List (OptionSpec × Text)
  /-- The operands, `none` where a separator took the place of one. -/
  operands : List (Option Text)
  /-- A command and the words after it. -/
  command : Option (Text × List Text)
  /-- Words that fit nowhere. -/
  extras : List Text

namespace Arguments

/-- Whether an option was given. -/
def has (arguments : Arguments) (spelling : Text) : Bool :=
  arguments.options.any fun (o, _) => o.spellings.contains spelling

/-- The last value given to an option. -/
def value? (arguments : Arguments) (spelling : Text) : Option Text :=
  (arguments.options.reverse.find? fun (o, _) => o.spellings.contains spelling).map Prod.snd

end Arguments

/-- Why reading words stops before their end. -/
inductive Stop where
  | help
  | version
  | usage (error : UsageError)

/-- Takes options that are complete; asking for help or the version stops everything. -/
def takeOptions (arguments : Arguments) :
    List (OptionSpec × Text) → Except Stop Arguments
  | [] => .ok arguments
  | (o, value) :: rest =>
    match o.effect with
    | .help => .error .help
    | .version => .error .version
    | _ => takeOptions { arguments with options := arguments.options ++ [(o, value)] } rest

/-- What the word just before comes to. -/
inductive Neighbour where
  | operand
  /-- A separator that belongs to the operand after it. -/
  | separator
  | other
deriving DecidableEq

namespace Grammar

/-- Takes words from left to right. `missing` holds the placeholders of operands still to come.
`neighbour` tells what came just before: a separator belongs to the operand before it, otherwise to
the one after it, and an operand loses one separator among its words. -/
def take (g : Grammar) (missing : List Text) (neighbour : Neighbour) (arguments : Arguments) :
    List (Text × WordSort) → Except Stop (Arguments × List Text)
  | [] => .ok (arguments, missing)
  | (word, .operand) :: rest =>
    match g.operands with
    | .command placeholder commands =>
      let choices := commands.map Prod.fst
      if choices.contains word then
        .ok ({ arguments with command := some (word, rest.map Prod.fst) }, missing)
      else .error (.usage (.invalidChoice placeholder word choices))
    | .fixed _ =>
      match missing with
      | _ :: missing =>
        let operand := if word = separatorWord && neighbour ≠ .separator then none else some word
        take g missing .operand { arguments with operands := arguments.operands ++ [operand] } rest
      | [] => take g [] .other { arguments with extras := arguments.extras ++ [word] } rest
  | (word, .separator) :: rest =>
    match g.operands with
    | .command placeholder commands =>
      if rest.isEmpty then
        take g missing .other { arguments with extras := arguments.extras ++ [word] } rest
      else .error (.usage (.invalidChoice placeholder word (commands.map Prod.fst)))
    | .fixed _ =>
      if neighbour = .operand then take g missing .operand arguments rest
      else if !missing.isEmpty && !rest.isEmpty then take g missing .separator arguments rest
      else take g missing .other { arguments with extras := arguments.extras ++ [word] } rest
  | (_, .option word) :: rest =>
    match word.option with
    | none =>
      take g missing .other { arguments with extras := arguments.extras ++ [word.spelling] } rest
    | some o =>
      match g.group o word with
      | .error error => .error (.usage error)
      | .ok group =>
        match group.pending with
        | none => do
          let arguments ← takeOptions arguments group.complete
          take g missing .other arguments rest
        | some o =>
          match rest with
          | (value, .operand) :: rest => do
            let arguments ← takeOptions arguments (group.complete ++ [(o, value)])
            take g missing .other arguments rest
          | _ => .error (.usage (.expectedArgument o.name))

/-- The placeholders of the operands that have to be given. -/
def required (g : Grammar) : List Text :=
  match g.operands with
  | .fixed operands => operands.map Prod.fst
  | .command .. => []

/-- What words come to. All of them are sorted before the first one is taken. -/
def read (g : Grammar) (words : List Text) : Except Stop Arguments := do
  let sorted ← (g.sortAll words).mapError .usage
  let (arguments, missing) ← g.take g.required .other ⟨[], [], none, []⟩ sorted
  if missing.isEmpty then .ok arguments else .error (.usage (.missingOperands missing))

end Grammar

end BitLayout.CommandLine
