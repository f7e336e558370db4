import SchemaSets.Error
import SchemaSets.Files.Basic
import SchemaSets.Settings.Layers
import SchemaSets.Settings.Loose
import SchemaSets.Toml.Reader

/-!
# Loading settings

Settings are put together from several sources, of which later ones count for
more: two files of the working directory, a file of the user, a file that was
asked for, and variables of the environment.  Only the file that was asked for
has to be there.
-/

namespace SchemaSets

/-- What is known of the surroundings besides files: the variables of the
environment, and the file in which a user keeps settings. -/
structure Surroundings where
  environment : List (String × String) := []
  userFile : Option String := none

namespace Settings

/-- The files of the working directory. -/
def localFiles : List String := ["schema-ir.toml", ".schema-ir.toml"]

/-- What names a file of settings. -/
def fileSuffix : String := "toml"

/-- The error that a file cannot be used. -/
def fileError (name reason : String) : SchemaError :=
  .settings ("configuration file \"" ++ name ++ "\" " ++ reason)

variable {m : Type → Type} [Monad m] [Files m]

/-- The source that a file holds. -/
def readSource (name : String) (isRequired : Bool) :
    m (Except SchemaError (List (String × Toml))) := do
  match ← Files.readText name with
  | .error refusal =>
    pure (if isRequired then .error (.settings refusal.text) else .ok [])
  | .ok text =>
    match Toml.parse text with
    | some entries => pure (.ok entries)
    | none => pure (.error (fileError name "is not a TOML document"))

/-- The source of a name, which may leave out the suffix of its file. -/
def source (name : String) (isRequired : Bool) :
    m (Except SchemaError (List (String × Toml))) := do
  let otherwise (reason : String) : Except SchemaError (List (String × Toml)) :=
    if isRequired then .error (fileError name reason) else .ok []
  if ← Files.isFile name then
    if Files.suffix? name = some fileSuffix then readSource name isRequired
    else pure (otherwise "is not of a registered file format")
  else
    match Files.withSuffix? name fileSuffix with
    | none => pure (otherwise "not found")
    | some suffixed =>
      if ← Files.isFile suffixed then readSource suffixed isRequired
      else pure (otherwise "not found")

/-- The sources among some names laid over one another. -/
def laySources : List (String × Bool) → List (String × Toml) →
    m (Except SchemaError (List (String × Toml)))
  | [], entries => pure (.ok entries)
  | (name, isRequired) :: rest, entries => do
    match ← source name isRequired with
    | .error e => pure (.error e)
    | .ok found => laySources rest (Layers.lay found entries)

/-- The names of the sources that are files, each with whether it has to be
there.  The file of the user is one of them if its name leads to anything. -/
def sourceNames (surroundings : Surroundings) (asked : Option String) :
    m (List (String × Bool)) := do
  let user ← match surroundings.userFile with
    | none => pure []
    | some name => do
      let isThere := (← Files.isFile name) || (← Files.isDirectory name)
      pure (if isThere then [(name, false)] else [])
  pure (localFiles.map (·, false) ++ user ++ asked.toList.map (·, true))

/-- The settings of a place, with a file that was asked for. -/
def load (surroundings : Surroundings) (asked : Option String) :
    m (Except SchemaError Settings) := do
  match ← laySources (← sourceNames surroundings asked) [] with
  | .error e => pure (.error e)
  | .ok entries =>
    match ofToml? (Layers.lay (Layers.ofVariables surroundings.environment) entries) with
    | some settings => pure (.ok settings)
    | none => pure (.error (.settings "a setting has a value of the wrong kind"))

/-- Writes settings to a file. -/
def save (settings : Settings) (name : String) : m (Except SchemaError Unit) := do
  match ← Files.writeText name settings.toToml with
  | .ok () => pure (.ok ())
  | .error refusal => pure (.error (.file refusal.text))

end Settings
end SchemaSets
