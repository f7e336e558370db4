import SchemaSets.Json.Shape
import SchemaSets.Settings

/-!
# Settings as documents

Settings are written as objects.  Reading them passes over keys that it does
not know and takes the default for a key that is missing; it also takes a list
of the fields in order.
-/

namespace SchemaSets

/-- Reads a record from a list of its fields in order.  That there are too many
is noticed last. -/
def readInOrder {α : Type} (names : List String) (items : List Json)
    (read : List (String × Json) → Except Malformation α) : Except Malformation α := do
  let result ← read (names.zip items)
  if names.length < items.length then
    .error (.invalidLength items.length "fewer elements in array")
  else .ok result

/-- Reads a field that may be missing. -/
def readField {α : Type} (fields : List (String × Json)) (name : String) (default : α)
    (read : Json → Except Malformation α) : Except Malformation α :=
  match Keyed.find? name fields with
  | some value => read value
  | none => .ok default

namespace CompilerSettings

/-- The settings as a document. -/
def toJson (settings : CompilerSettings) : Json :=
  .ofPairs [("unknown_attributes", .string settings.unknownAttributes.word)]

/-- Settings from their fields. -/
def ofFields (fields : List (String × Json)) : Except Malformation CompilerSettings := do
  let policy ← readField fields "unknown_attributes" .ignore
    (Json.asChoice UnknownAttributes.choices Json.isNull)
  .ok ⟨policy⟩

/-- Settings from a document. -/
def ofJson : Json → Except Malformation CompilerSettings
  | .object members => ofFields members
  | .array items => readInOrder ["unknown_attributes"] items ofFields
  | other => .error (.invalidType other "struct CompilerConfig")

end CompilerSettings

namespace ExportSettings

/-- The names of the fields. -/
def fieldNames : List String := ["definitions_key", "include_schema_uri", "output_format"]

/-- The settings as a document. -/
def toJson (settings : ExportSettings) : Json :=
  .ofPairs [("definitions_key", .string settings.definitionsKey),
    ("include_schema_uri", .bool settings.includeSchemaUri),
    ("output_format", .string settings.outputFormat.word)]

/-- Settings from their fields. -/
def ofFields (fields : List (String × Json)) : Except Malformation ExportSettings := do
  let key ← readField fields "definitions_key" "definitions" Json.asString
  let includeUri ← readField fields "include_schema_uri" true Json.asBool
  let format ← readField fields "output_format" .pretty
    (Json.asChoice OutputFormat.choices Json.isNull)
  .ok ⟨key, includeUri, format⟩

/-- Settings from a document. -/
def ofJson : Json → Except Malformation ExportSettings
  | .object members => ofFields members
  | .array items => readInOrder fieldNames items ofFields
  | other => .error (.invalidType other "struct ExportConfig")

end ExportSettings

/-- All settings as a document. -/
def Settings.toJson (settings : Settings) : Json :=
  .ofPairs [("compiler", settings.compiler.toJson), ("export", settings.exporter.toJson)]

end SchemaSets
