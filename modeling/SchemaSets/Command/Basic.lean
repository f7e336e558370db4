import SchemaSets.Settings.Load
import SchemaSets.Element.Reader

/-!
# Commands

A command is given as words and answers with an exit code and two texts.  Its
words are options, each with a value, and arguments; options have a long name
and a letter.  What makes a command fail is told on the second text, as a chain
from what was being done to what went wrong.
-/

namespace SchemaSets

/-- What a command leaves behind besides files. -/
structure Outcome where
  code : Nat
  output : String := ""
  errors : String := ""
deriving DecidableEq, Repr

namespace Command

/-! ## Words -/

/-- An option with its letter. -/
structure OptionName where
  letter : Char
  name : String
deriving DecidableEq, Repr

/-- Options with their values, and arguments. -/
structure Arguments where
  options : List (String × String) := []
  words : List String := []
deriving DecidableEq, Repr

/-- Whether a word is an option rather than an argument. -/
def isOption (word : String) : Bool :=
  match word.toList with
  | '-' :: _ :: _ => true
  | _ => false

/-- The name and the value of a word that is an option; the value may be left
to the next word. -/
def splitOption (names : List OptionName) (word : String) : Option (String × Option String) :=
  match word.toList with
  | '-' :: '-' :: rest =>
    match rest.span (· ≠ '=') with
    | (name, []) =>
      (names.find? fun o => o.name = .ofList name).map fun o => (o.name, none)
    | (name, _ :: value) =>
      (names.find? fun o => o.name = .ofList name).map fun o => (o.name, some (.ofList value))
  | '-' :: letter :: rest =>
    (names.find? fun o => o.letter = letter).map fun o =>
      (o.name, match rest with
        | [] => none
        | '=' :: value => some (.ofList value)
        | value => some (.ofList value))
  | _ => none

/-- The arguments with one more option; an option is given at most once. -/
def Arguments.addOption (arguments : Arguments) (name value : String) : Option Arguments :=
  if (arguments.options.find? fun o => o.1 = name).isSome then none
  else some { arguments with options := arguments.options ++ [(name, value)] }

/-- Reads options up to the first argument, and gives back the words from there
on. -/
def readLeading (names : List OptionName) (arguments : Arguments) :
    List String → Option (Arguments × List String)
  | [] => some (arguments, [])
  | word :: rest =>
    if isOption word then
      match splitOption names word with
      | none => none
      | some (name, some value) =>
        match arguments.addOption name value with
        | none => none
        | some arguments => readLeading names arguments rest
      | some (name, none) =>
        match rest with
        | [] => none
        | value :: rest =>
          if isOption value then none
          else
            match arguments.addOption name value with
            | none => none
            | some arguments => readLeading names arguments rest
    else some (arguments, word :: rest)

/-- Reads options and arguments in any order.  After two hyphens all words are
arguments. -/
def readMixed (names : List OptionName) (arguments : Arguments) :
    List String → Option Arguments
  | [] => some arguments
  | word :: rest =>
    if word = "--" then some { arguments with words := arguments.words ++ rest }
    else if isOption word then
      match splitOption names word with
      | none => none
      | some (name, some value) =>
        match arguments.addOption name value with
        | none => none
        | some arguments => readMixed names arguments rest
      | some (name, none) =>
        match rest with
        | [] => none
        | value :: rest =>
          if isOption value then none
          else
            match arguments.addOption name value with
            | none => none
            | some arguments => readMixed names arguments rest
    else readMixed names { arguments with words := arguments.words ++ [word] } rest

/-- The value of an option. -/
def Arguments.option? (arguments : Arguments) (name : String) : Option String :=
  (arguments.options.find? fun o => o.1 = name).map (·.2)

/-- The option for a file of settings. -/
def configOption : OptionName := ⟨'c', "config"⟩

/-- Words that make no sense. -/
def usage : Outcome := { code := 2, errors := "error: the arguments do not fit\n" }

/-! ## Failures -/

/-- A computation that reads files and may fail with words for what went
wrong. -/
abbrev Task (m : Type → Type) := ExceptT String m

/-- Words for a failure of something that was being done. -/
def inContext (context reason : String) : String := context ++ ": " ++ reason

/-- The outcome of a command that failed. -/
def failed (code : Nat) (reason : String) : Outcome :=
  { code := code, errors := "Error: " ++ reason ++ "\n" }

variable {m : Type → Type} [Monad m] [Files m]

/-- Goes on with a result, or fails with the words for its error. -/
def orFail {ε α : Type} (words : ε → String) (result : Except ε α) : Task m α :=
  match result with
  | .ok a => pure a
  | .error e => throw (words e)

/-- The settings for a command. -/
def loadSettings (surroundings : Surroundings) (asked : Option String) : Task m Settings := do
  orFail SchemaError.chain (← (Settings.load surroundings asked : m _))

/-- The text of a file. -/
def readFile (name : String) : Task m String := do
  orFail (fun refusal => inContext ("reading " ++ name) refusal.text)
    (← (Files.readText name : m _))

end Command
end SchemaSets
