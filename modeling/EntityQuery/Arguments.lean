import EntityQuery.Command

/-!
# Arguments — command lines

A command line names one command and gives options, each a name after two dashes and a value.
Options may stand before or after the command, and the last value of an option counts. Every command
takes a configuration directory and a dialect; the compiling ones need an entity and an input file,
whose option is named for what the file holds.
-/

namespace EntityQuery

/-- A command with what it runs with. -/
structure Invocation where
  /-- What it runs with. -/
  context : CommandContext
  /-- The command. -/
  command : Command

/-- Why a command line is not understood. -/
inductive UsageError where
  /-- There is no command. -/
  | noCommand
  /-- There is no command of this name. -/
  | unknownCommand (name : String)
  /-- Something follows the command. -/
  | surplusWord (word : String)
  /-- There is no option of this name. -/
  | unknownOption (name : String)
  /-- An option has no value. -/
  | valueMissing (name : String)
  /-- The command needs another option. -/
  | optionMissing (name : String)
  /-- There is no dialect of this name. -/
  | unknownDialect (name : String)
  deriving DecidableEq, Repr

/-- The wording of an error. -/
def UsageError.message : UsageError → String
  | .noCommand => "a command is required"
  | .unknownCommand name => "unknown command '" ++ name ++ "'"
  | .surplusWord word => "unexpected argument '" ++ word ++ "'"
  | .unknownOption name => "unknown option '--" ++ name ++ "'"
  | .valueMissing name => "option '--" ++ name ++ "' needs a value"
  | .optionMissing name => "option '--" ++ name ++ "' is required"
  | .unknownDialect name => "unknown dialect '" ++ name ++ "'"

/-- A command line taken apart: options by name, and all other words. -/
structure ArgumentList where
  /-- The options. -/
  options : Entries String := []
  /-- The other words, in order. -/
  words : List String := []

namespace ArgumentList

/-- The names of the options. -/
def optionNames : List String :=
  ["configuration", "dialect", "entity", "request", "search", "order", "rows"]

/-- The name of an option, after its dashes. -/
def optionName? (argument : String) : Option String :=
  match argument.toList with
  | '-' :: '-' :: name => some (String.ofList name)
  | _ => none

/-- Takes a command line apart. -/
def read (taken : ArgumentList) : List String → Except UsageError ArgumentList
  | [] => .ok taken
  | [argument] =>
      match optionName? argument with
      | none => .ok { taken with words := taken.words ++ [argument] }
      | some name =>
          .error (if name ∈ optionNames then .valueMissing name else .unknownOption name)
  | argument :: value :: rest =>
      match optionName? argument with
      | none => read { taken with words := taken.words ++ [argument] } (value :: rest)
      | some name =>
          if name ∈ optionNames then
            read { taken with options := taken.options.put name value } rest
          else .error (.unknownOption name)

/-- The value of an option that the command needs. -/
def required (taken : ArgumentList) (name : String) : Except UsageError String :=
  match taken.options.get? name with
  | some value => .ok value
  | none => .error (.optionMissing name)

/-- A command on an entity, whose input file is the value of an option. -/
def compiling (taken : ArgumentList) (make : String → String → Command) (input : String) :
    Except UsageError Command := do
  let entity ← taken.required "entity"
  let file ← taken.required input
  .ok (make entity file)

/-- The command. -/
def command (taken : ArgumentList) : Except UsageError Command :=
  match taken.words with
  | [] => .error .noCommand
  | _ :: word :: _ => .error (.surplusWord word)
  | ["select"] => taken.compiling .select "request"
  | ["where"] => taken.compiling .filter "search"
  | ["order-by"] => taken.compiling .order "order"
  | ["insert"] => taken.compiling .insert "rows"
  | ["initialize"] => .ok .setUp
  | ["print-schema"] => .ok .printSchema
  | [name] => .error (.unknownCommand name)

/-- The dialect in place of the configured one. -/
def dialect (taken : ArgumentList) : Except UsageError (Option Dialect) :=
  match taken.options.get? "dialect" with
  | none => .ok none
  | some name =>
      match Dialect.presets.lookup name with
      | some dialect => .ok (some dialect)
      | none => .error (.unknownDialect name)

end ArgumentList

/-- What a command line asks for; the configuration is in the working directory by default. -/
def Invocation.ofArguments (arguments : List String) : Except UsageError Invocation := do
  let taken ← ArgumentList.read {} arguments
  let dialect ← taken.dialect
  let command ← taken.command
  .ok ⟨⟨(taken.options.get? "configuration").getD ".", dialect⟩, command⟩

namespace Invocation

/-- The files that are read. -/
def inputs (invocation : Invocation) : List String :=
  let file := match invocation.command with
    | .select _ file | .filter _ file | .order _ file | .insert _ file => [file]
    | .setUp | .printSchema => []
  file ++ [invocation.context.configurationFile]

/-- The files that may be written. -/
def outputs (invocation : Invocation) : List String :=
  match invocation.command with
  | .setUp => [invocation.context.configurationFile, invocation.context.schemaFile]
  | _ => []

/-- Runs the command. -/
def run (invocation : Invocation) (tree : FileTree) : FileTree × Except CommandError String :=
  invocation.command.run invocation.context tree

end Invocation

end EntityQuery
