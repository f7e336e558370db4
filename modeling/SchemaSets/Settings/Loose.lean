import SchemaSets.Decimal.Format
import SchemaSets.Settings
import SchemaSets.Toml.Printer

/-!
# Settings from loosely typed values

Files and variables of the environment give settings as loosely typed values: a
text stands for a boolean if it is a word for one, a number stands for its
text, and the case of a choice's name does not matter.
-/

namespace SchemaSets

/-! ## Loose values -/

namespace Toml

/-- The text that a value stands for. -/
def asText? : Toml → Option String
  | .string text | .moment text => some text
  | .integer n => some (toString n)
  | .float x => some (Decimal.positional x)
  | .boolean b => some (toString b)
  | _ => none

/-- The boolean that a value stands for. -/
def asBoolean? : Toml → Option Bool
  | .boolean b => some b
  | .integer n => some (n ≠ 0)
  | .float x => some (x != 0.0)
  | .string text | .moment text =>
    let lower := text.toLower
    if ["1", "true", "on", "yes"].contains lower then some true
    else if ["0", "false", "off", "no"].contains lower then some false
    else none
  | _ => none

/-- One of a list of choices by its name, whose case does not matter; a table
with one key stands for that key. -/
def asChoice? {α : Type} (choices : List (String × α)) : Toml → Option α
  | .string name | .moment name | .table [(name, _)] =>
    (choices.find? fun choice => choice.1 = name.toLower).map (·.2)
  | _ => none

/-- The fields of a record: a table, or a list of the fields in order. -/
def asFields? (names : List String) : Toml → Option (List (String × Toml))
  | .table entries => some entries
  | .array items => some (names.zip items)
  | _ => none

/-- A field that may be missing. -/
def field? {α : Type} (fields : List (String × Toml)) (name : String) (default : α)
    (read : Toml → Option α) : Option α :=
  match Keyed.find? name fields with
  | some value => read value
  | none => some default

end Toml

/-- The settings of the compiler from a loose value. -/
def CompilerSettings.ofToml? (value : Toml) : Option CompilerSettings := do
  let fields ← value.asFields? ["unknown_attributes"]
  some ⟨← Toml.field? fields "unknown_attributes" .ignore
    (Toml.asChoice? UnknownAttributes.choices)⟩

/-- The settings of the exporter from a loose value. -/
def ExportSettings.ofToml? (value : Toml) : Option ExportSettings := do
  let fields ← value.asFields? ["definitions_key", "include_schema_uri", "output_format"]
  some
    { definitionsKey := ← Toml.field? fields "definitions_key" "definitions" Toml.asText?
      includeSchemaUri := ← Toml.field? fields "include_schema_uri" true Toml.asBoolean?
      outputFormat := ← Toml.field? fields "output_format" .pretty
        (Toml.asChoice? OutputFormat.choices) }

namespace Settings

/-- All settings from the entries of a table. -/
def ofToml? (entries : List (String × Toml)) : Option Settings := do
  some
    { compiler := ← Toml.field? entries "compiler" {} CompilerSettings.ofToml?
      exporter := ← Toml.field? entries "export" {} ExportSettings.ofToml? }

/-- All settings as a TOML text. -/
def toToml (settings : Settings) : String :=
  "[compiler]\n" ++
  "unknown_attributes = " ++ Toml.quote settings.compiler.unknownAttributes.word ++ "\n\n" ++
  "[export]\n" ++
  "definitions_key = " ++ Toml.quote settings.exporter.definitionsKey ++ "\n" ++
  "include_schema_uri = " ++ toString settings.exporter.includeSchemaUri ++ "\n" ++
  "output_format = " ++ Toml.quote settings.exporter.outputFormat.word ++ "\n"

end Settings
end SchemaSets
