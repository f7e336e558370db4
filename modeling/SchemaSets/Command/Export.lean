import SchemaSets.Command.Basic
import SchemaSets.Element.Compile
import SchemaSets.Export

/-!
# The command that exports sets

`json-schema SET` writes the documents of a set, all together or, with a
directory for the option `out`, one file for each entry.  `describe SET` writes
the description of every entry.
-/

namespace SchemaSets.Command.Export

/-- What is to be exported. -/
inductive Request
  | documents (set : String) (directory : Option String)
  | descriptions (set : String)
deriving DecidableEq, Repr

/-- The option for a directory. -/
def outOption : OptionName := ⟨'o', "out"⟩

/-- The request that some words make, with the file of settings asked for. -/
def Request.ofWords? (words : List String) : Option (Option String × Request) := do
  let (leading, rest) ← readLeading [configOption] {} words
  let request ← match rest with
    | "json-schema" :: rest => do
      let arguments ← readMixed [outOption] {} rest
      let directory := arguments.option? outOption.name
      match arguments.words with
      | [set] =>
        if set.isEmpty || directory = some "" then none else some (.documents set directory)
      | _ => none
    | "describe" :: rest =>
      match (← readMixed [] {} rest).words with
      | [set] => if set.isEmpty then none else some (.descriptions set)
      | _ => none
    | _ => none
  some (leading.option? configOption.name, request)

/-- The file of the document of an entry. -/
def documentFile (directory name : String) : String :=
  Files.join directory (name ++ ".schema.json")

/-- The descriptions of a set in words: one line for each entry. -/
def descriptionText (descriptions : List (String × String)) : String :=
  String.join (descriptions.map fun d => d.1 ++ ": " ++ d.2 ++ "\n")

variable {m : Type → Type} [Monad m] [Files m]

/-- The set of elements of a file. -/
def readSet (name : String) : Task m SchemaSet := do
  orFail (fun e => inContext ("loading schema set " ++ name) e.chain)
    (SchemaSet.ofText (← readFile name))

/-- Writes documents to files of a directory, in order, up to the first that
cannot be written. -/
def writeDocuments (format : OutputFormat) (directory : String) :
    List (String × Json) → Task m Unit
  | [] => pure ()
  | (name, document) :: rest => do
    let file := documentFile directory name
    orFail (fun refusal => inContext ("writing " ++ file) refusal.text)
      (← (Files.writeText file (format.render document) : m _))
    writeDocuments format directory rest

/-- The documents of a set. -/
def exportSet (settings : Settings) (set : SchemaSet) : ExportedSet :=
  let compiled := set.compile settings.compiler (.ofSet 0)
  compiled.exportFor (({} : Shelf).put 0 compiled) settings.exporter set

/-- Does what is requested. -/
def perform (settings : Settings) : Request → Task m Outcome
  | .documents file directory => do
    let exported := exportSet settings (← readSet file)
    let format := settings.exporter.outputFormat
    match directory with
    | none => pure { code := 0, output := format.render exported.toJson ++ "\n" }
    | some directory => do
      orFail FileError.text (← (Files.makeDirectories directory : m _))
      writeDocuments format directory exported.documents
      pure { code := 0,
             output := "✅ Exported " ++ toString exported.size ++ " schema(s) to " ++
               directory ++ "\n" }
  | .descriptions file => do
    let compiled := (← readSet file).compile settings.compiler .detached
    pure { code := 0, output := descriptionText compiled.describe }

/-- The exit code of a failure. -/
def failureCode : Nat := 1

/-- Runs the command. -/
def run (surroundings : Surroundings) (words : List String) : m Outcome := do
  match Request.ofWords? words with
  | none => pure usage
  | some (asked, request) =>
    let task : Task m Outcome := do perform (← loadSettings surroundings asked) request
    match ← task.run with
    | .ok outcome => pure outcome
    | .error reason => pure (failed failureCode reason)

end SchemaSets.Command.Export
