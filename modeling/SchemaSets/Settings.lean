import SchemaSets.Json.Printer

/-!
# Settings

What can be chosen about compiling and exporting: whether objects take
attributes that they do not list, under which key a document carries its
definitions, whether it names its dialect, and in which layout it is written.
-/

namespace SchemaSets

/-- What compiled objects do with attributes that they do not list. -/
inductive UnknownAttributes
  | ignore
  | reject
deriving DecidableEq, Repr

/-- The layouts of JSON text. -/
inductive OutputFormat
  | pretty
  | compact
deriving DecidableEq, Repr

/-- The word for a policy. -/
def UnknownAttributes.word : UnknownAttributes → String
  | .ignore => "ignore"
  | .reject => "reject"

/-- The policies by word. -/
def UnknownAttributes.choices : List (String × UnknownAttributes) :=
  [UnknownAttributes.ignore, .reject].map fun policy => (policy.word, policy)

/-- The word for a layout. -/
def OutputFormat.word : OutputFormat → String
  | .pretty => "pretty"
  | .compact => "compact"

/-- The layouts by word. -/
def OutputFormat.choices : List (String × OutputFormat) :=
  [OutputFormat.pretty, .compact].map fun format => (format.word, format)

/-- A document in a layout. -/
def OutputFormat.render (format : OutputFormat) (document : Json) : String :=
  match format with
  | .pretty => document.pretty
  | .compact => document.compact

/-- Settings of the compiler. -/
structure CompilerSettings where
  unknownAttributes : UnknownAttributes := .ignore
deriving DecidableEq, Repr

/-- Settings of the exporter. -/
structure ExportSettings where
  definitionsKey : String := "definitions"
  includeSchemaUri : Bool := true
  outputFormat : OutputFormat := .pretty
deriving DecidableEq, Repr

/-- All settings. -/
structure Settings where
  compiler : CompilerSettings := {}
  exporter : ExportSettings := {}
deriving DecidableEq, Repr

end SchemaSets
