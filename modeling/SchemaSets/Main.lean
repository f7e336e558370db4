import SchemaSets.Command.Export
import SchemaSets.Command.Validate

/-!
# The program

The two commands on the files of the host.  The first word chooses the command.
-/

namespace SchemaSets.Program

/-- Why the host refused. -/
def fileError : IO.Error → FileError
  | .noFileOrDirectory _ _ _ => .notFound
  | .alreadyExists _ 17 _ => .alreadyExists
  | .resourceExhausted _ 36 _ => .nameTooLong
  | .inappropriateType _ 20 _ => .notADirectory
  | .inappropriateType _ 21 _ => .isADirectory
  | e => .other (toString e)

/-- Runs an action of the host and keeps its refusal. -/
def attempt {α : Type} (action : IO α) : IO (Except FileError α) := do
  try pure (.ok (← action))
  catch e => pure (.error (fileError e))

/-- Whether a name of the host leads to a directory, if it leads anywhere. -/
def directory? (name : String) : IO (Option Bool) := do
  match ← attempt (System.mkFilePath [name]).metadata with
  | .ok metadata => pure (some (metadata.type == .dir))
  | .error _ => pure none

instance : Files IO where
  readText name := attempt (IO.FS.readFile name)
  writeText name text := attempt (IO.FS.writeFile name text)
  makeDirectory name := attempt (IO.FS.createDir name)
  isFile name := do pure ((← directory? name) == some false)
  isDirectory name := do pure ((← directory? name) == some true)

/-- The variables of the environment that settings are read from. -/
def settingVariables : List String :=
  ["SCHEMA_IR__COMPILER__UNKNOWN_ATTRIBUTES", "SCHEMA_IR__EXPORT__DEFINITIONS_KEY",
    "SCHEMA_IR__EXPORT__INCLUDE_SCHEMA_URI", "SCHEMA_IR__EXPORT__OUTPUT_FORMAT"]

/-- What is known of the host. -/
def surroundings : IO Surroundings := do
  let environment ← settingVariables.filterMapM fun name => do
    pure ((← IO.getEnv name).map fun text => (name, text))
  let home ← IO.getEnv "HOME"
  let configured ← IO.getEnv "XDG_CONFIG_HOME"
  let base := (configured.filter Files.isAbsolute).or
    (home.map fun home => Files.join home ".config")
  pure ⟨environment, base.map fun base => Files.join base "schema-ir/schema-ir.toml"⟩

/-- Runs the command that the first word chooses. -/
def run (words : List String) : IO Outcome := do
  let surroundings ← surroundings
  match words with
  | "validate" :: words => Command.Validate.run surroundings words
  | "export" :: words => Command.Export.run surroundings words
  | _ => pure Command.usage

end SchemaSets.Program

/-- Runs the program. -/
def main (words : List String) : IO UInt32 := do
  let outcome ← SchemaSets.Program.run words
  IO.print outcome.output
  IO.eprint outcome.errors
  pure outcome.code.toUInt32
