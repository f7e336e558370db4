import SchemaSets.Command.Basic
import SchemaSets.Element.Compile
import SchemaSets.Grammar

/-!
# The command that checks documents

`set FILE` checks a document that should be a set of elements against the
grammar.  `value SET NAME FILE` compiles a set and checks a JSON value against
one of its entries.  The exit code tells a value that fits from one that does
not, and both from a failure.
-/

namespace SchemaSets.Command.Validate

/-- What is to be checked. -/
inductive Request
  | grammar (file : String)
  | entry (setFile name valueFile : String)
deriving DecidableEq, Repr

/-- The request that some words make, with the file of settings asked for. -/
def Request.ofWords? (words : List String) : Option (Option String × Request) := do
  let (leading, rest) ← readLeading [configOption] {} words
  let request ← match rest with
    | "set" :: rest =>
      match (← readMixed [] {} rest).words with
      | [file] => if file.isEmpty then none else some (.grammar file)
      | _ => none
    | "value" :: rest =>
      match (← readMixed [] {} rest).words with
      | [setFile, name, valueFile] =>
        if setFile.isEmpty || valueFile.isEmpty then none
        else some (.entry setFile name valueFile)
      | _ => none
    | _ => none
  some (leading.option? configOption.name, request)

/-- A report in words, under the name of what was checked. -/
def reportText (subject : String) (report : Report) : String :=
  if report.isValid then "✅ " ++ subject ++ " - valid\n"
  else
    "❌ " ++ subject ++ " - " ++ toString report.issues.length ++ " issue(s)\n" ++
      String.join (report.issues.map fun issue => "   " ++ issue.text ++ "\n")

/-- The outcome of a check. -/
def outcome (subject : String) (report : Report) : Outcome :=
  { code := if report.isValid then 0 else 1, output := reportText subject report }

variable {m : Type → Type} [Monad m] [Files m]

/-- The document of a file. -/
def readDocument (name : String) : Task m Json := do
  orFail (fun fault => inContext ("parsing " ++ name) fault.message)
    (Json.parse (← readFile name))

/-- The report on a value under an entry of a set that is compiled for it. -/
def checkValue (settings : CompilerSettings) (set : SchemaSet) (name : String) (value : Value) :
    Except SchemaError Report := do
  let compiled := set.compile settings (.ofSet 0)
  let entry ← compiled.entry name
  (entry.validator.validate (({} : Shelf).put 0 compiled) value).mapError .reference

/-- Does what is requested. -/
def perform (settings : Settings) : Request → Task m Outcome
  | .grammar file => do
    let document ← readDocument file
    let report ← orFail SchemaError.chain (Grammar.validateSet document)
    pure (outcome file report)
  | .entry setFile name valueFile => do
    let elements ← orFail SchemaError.chain (SchemaSet.ofJson (← readDocument setFile))
    let document ← readDocument valueFile
    let report ← orFail SchemaError.chain
      (checkValue settings.compiler elements name (.ofJson document))
    pure (outcome (valueFile ++ " against " ++ name) report)

/-- The exit code of a failure. -/
def failureCode : Nat := 2

/-- Runs the command. -/
def run (surroundings : Surroundings) (words : List String) : m Outcome := do
  match Request.ofWords? words with
  | none => pure usage
  | some (asked, request) =>
    let task : Task m Outcome := do perform (← loadSettings surroundings asked) request
    match ← task.run with
    | .ok outcome => pure outcome
    | .error reason => pure (failed failureCode reason)

end SchemaSets.Command.Validate
