import BitLayout.CommandLine.Command

/-!
# Words that call a command

All words are sorted by the grammar of the program before the command is known, and those after the
command once more by its own grammar. A word that none of them takes for an option is an operand in
its place.

## Main definitions

* `CommandLine.IsOperand`: a word that is no option

## Main results

* `CommandLine.ofWords_decode`, `CommandLine.ofWords_encode`: the command with two operands and an
  output file
-/

namespace BitLayout.CommandLine

/-- A word that is no option, neither for the program nor for one of its commands. -/
def IsOperand (word : Text) : Prop :=
  programGrammar.sort word = .ok .operand ∧
    ∀ kind : CommandKind, kind.grammar.sort word = .ok .operand

variable {word schema input output : Text} {rest : List Text} {others : List (Text × WordSort)}

/-- The separator is short for several options. -/
theorem IsOperand.ne_separator (operand : IsOperand word) : word ≠ separatorWord := by
  rintro rfl
  cases operand.1

namespace Grammar

variable {grammar : Grammar} {sort : WordSort}

theorem sortAll_cons (different : word ≠ separatorWord) (sorted : grammar.sort word = .ok sort)
    (sorted_rest : grammar.sortAll rest = .ok others) :
    grammar.sortAll (word :: rest) = .ok ((word, sort) :: others) := by
  rw [sortAll, if_neg different, sorted, sorted_rest]
  rfl

variable {spec : List (Text × Text)} {missing : List Text} {neighbour : Neighbour}
  {arguments : Arguments} {option : OptionSpec} {placeholder spelling value : Text}

/-- An operand is taken for the next one that is missing. -/
theorem take_operand (takes : grammar.operands = .fixed spec) (different : word ≠ separatorWord) :
    grammar.take (placeholder :: missing) neighbour arguments ((word, .operand) :: others) =
      grammar.take missing .operand
        { arguments with operands := arguments.operands ++ [some word] } others := by
  rw [take, takes]
  dsimp only
  rw [decide_eq_false different, Bool.false_and, if_neg Bool.false_ne_true]

/-- An option takes the word after it for its value. -/
theorem take_value (effect : option.effect = .value placeholder) :
    grammar.take missing neighbour arguments
        ((spelling, .option ⟨some option, spelling, none⟩) :: (value, .operand) :: others) =
      grammar.take missing .other
        { arguments with options := arguments.options ++ [(option, value)] } others := by
  have takesValue : option.takesValue = true := by rw [OptionSpec.takesValue, effect]
  have group : grammar.group option ⟨some option, spelling, none⟩ = .ok ⟨[], some option⟩ := by
    rw [Grammar.group, OptionGroup.single, takesValue]
    rfl
  have taken : takeOptions arguments [(option, value)] =
      .ok { arguments with options := arguments.options ++ [(option, value)] } := by
    rw [takeOptions, effect]
    rfl
  rw [take]
  dsimp only
  rw [group]
  exact congrArg (· >>= fun arguments => take grammar missing .other arguments others) taken

end Grammar

section Program

/-- The word of a command ends the words of the program. -/
theorem read_program {kind : CommandKind} (sorted : programGrammar.sortAll rest = .ok others)
    (same : others.map Prod.fst = rest) :
    programGrammar.read (kind.name :: rest) = .ok ⟨[], [], some (kind.name, rest), []⟩ := by
  have different : kind.name ≠ separatorWord := by cases kind <;> decide
  have operand : programGrammar.sort kind.name = .ok .operand := by cases kind <;> rfl
  rw [Grammar.read, Grammar.sortAll_cons different operand sorted]
  cases kind <;> exact congrArg (fun words => Except.ok (Arguments.mk [] [] (some (_, words)) [])) same

theorem called?_eq {kind : CommandKind} :
    Request.called? ⟨[], [], some (kind.name, rest), []⟩ = some (kind, rest) := by
  cases kind <;> rfl

end Program

section Command

variable {kind : CommandKind} {option : OptionSpec} {first second placeholder : Text}

/-- Two operands and an option with its value. -/
theorem read_operands (two : kind.operands.map Prod.fst = [first, second])
    (outputSort : kind.grammar.sort "-o" = .ok (.option ⟨some option, "-o", none⟩))
    (effect : option.effect = .value placeholder)
    (isSchema : IsOperand schema) (isInput : IsOperand input) (isOutput : IsOperand output) :
    kind.grammar.read [schema, input, "-o", output] =
      .ok ⟨[(option, output)], [some schema, some input], none, []⟩ := by
  have takes : kind.grammar.operands = .fixed kind.operands := rfl
  have required : kind.grammar.required = [first, second] := two
  have sorted : kind.grammar.sortAll [schema, input, "-o", output] =
      .ok [(schema, .operand), (input, .operand), ("-o", .option ⟨some option, "-o", none⟩),
        (output, .operand)] :=
    Grammar.sortAll_cons isSchema.ne_separator (isSchema.2 kind) <|
      Grammar.sortAll_cons isInput.ne_separator (isInput.2 kind) <|
        Grammar.sortAll_cons (by decide) outputSort <|
          Grammar.sortAll_cons isOutput.ne_separator (isOutput.2 kind) rfl
  rw [Grammar.read, sorted, required]
  dsimp only [Except.mapError, bind, Except.bind]
  rw [Grammar.take_operand takes isSchema.ne_separator,
    Grammar.take_operand takes isInput.ne_separator, Grammar.take_value effect]
  rfl

theorem ofWords_operands (kind : CommandKind)
    (two : kind.operands.map Prod.fst = [first, second])
    (outputSort : kind.grammar.sort "-o" = .ok (.option ⟨some option, "-o", none⟩))
    (effect : option.effect = .value placeholder)
    (isSchema : IsOperand schema) (isInput : IsOperand input) (isOutput : IsOperand output) :
    Request.ofWords [kind.name, schema, input, "-o", output] =
      .command false (kind.command ⟨[(option, output)], [some schema, some input], none, []⟩) := by
  have unknown : programGrammar.sort "-o" = .ok (.option ⟨none, "-o", none⟩) := rfl
  have sorted : programGrammar.sortAll [schema, input, "-o", output] =
      .ok [(schema, .operand), (input, .operand), ("-o", .option ⟨none, "-o", none⟩),
        (output, .operand)] :=
    Grammar.sortAll_cons isSchema.ne_separator isSchema.1 <|
      Grammar.sortAll_cons isInput.ne_separator isInput.1 <|
        Grammar.sortAll_cons (by decide) unknown <|
          Grammar.sortAll_cons isOutput.ne_separator isOutput.1 rfl
  rw [Request.ofWords, read_program sorted rfl]
  dsimp only
  rw [called?_eq]
  dsimp only
  rw [read_operands two outputSort effect isSchema isInput isOutput]
  rfl

theorem ofWords_decode (isSchema : IsOperand schema) (isInput : IsOperand input)
    (isOutput : IsOperand output) : Request.ofWords ["decode", schema, input, "-o", output] =
      .command false (.decode (some schema) (some input) output false) :=
  ofWords_operands .decode rfl rfl rfl isSchema isInput isOutput

theorem ofWords_encode (isSchema : IsOperand schema) (isInput : IsOperand input)
    (isOutput : IsOperand output) : Request.ofWords ["encode", schema, input, "-o", output] =
      .command false (.encode (some schema) (some input) output) :=
  ofWords_operands .encode rfl rfl rfl isSchema isInput isOutput

end Command

end BitLayout.CommandLine
