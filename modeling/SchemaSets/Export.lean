import SchemaSets.Draft07.Rendering
import SchemaSets.Draft07.Validity
import SchemaSets.Dependency

/-!
# Exported documents

Every entry of a compiled set becomes a document of its own: the schema of its
validator together with the definitions that its references lead to.  Which
definitions those are is told by a dependency map; the entry itself is always
among them, so that a reference back to it resolves.

The definitions are put under a key that may be chosen freely, and the dialect
is named last.  A key that is also a keyword therefore replaces that keyword,
and `$schema` replaces everything.
-/

namespace SchemaSets

/-- The dialect of exported documents. -/
def dialect : String := "http://json-schema.org/draft-07/schema#"

/-- Documents by the name of their entry, in name order. -/
structure ExportedSet where
  documents : List (String × Json)

namespace CompiledSet

/-- The definitions of some names; names without an entry are passed over. -/
def definitions (shelf : Shelf) (settings : ExportSettings) (set : CompiledSet)
    (names : List String) : List (String × Json) :=
  names.filterMap fun name =>
    (set.get? name).map fun entry => (name, entry.validator.schema shelf settings)

/-- The names whose definitions belong to the document of an entry. -/
def scope (dependencies : List (String × List String)) (name : String) : List String :=
  Keyed.nameSet (name :: (Keyed.find? name dependencies).getD [])

/-- The document of an entry. -/
def document (shelf : Shelf) (settings : ExportSettings)
    (dependencies : List (String × List String)) (set : CompiledSet) (entry : Entry) : Json :=
  let members := entry.validator.schemaMembers shelf settings.definitionsKey
  let definitions := set.definitions shelf settings (scope dependencies entry.name)
  let members := Keyed.insert settings.definitionsKey (.object definitions) members
  .object <|
    if settings.includeSchemaUri then Keyed.insert "$schema" (.string dialect) members
    else members

/-- The documents of all entries, with definitions as a dependency map tells. -/
def exportWith (shelf : Shelf) (settings : ExportSettings)
    (dependencies : List (String × List String)) (set : CompiledSet) : ExportedSet :=
  ⟨set.entries.map fun e => (e.1, set.document shelf settings dependencies e.2)⟩

/-- The documents of all entries, with the definitions that the elements of
`elements` reach. -/
def exportFor (shelf : Shelf) (settings : ExportSettings) (elements : SchemaSet)
    (set : CompiledSet) : ExportedSet :=
  set.exportWith shelf settings elements.dependencyMap

end CompiledSet

namespace ExportedSet

/-- The document of a name. -/
def get? (exported : ExportedSet) (name : String) : Option Json :=
  Keyed.find? name exported.documents

/-- The number of documents. -/
def size (exported : ExportedSet) : Nat := exported.documents.length

/-- All documents as one, by name. -/
def toJson (exported : ExportedSet) : Json := .object exported.documents

/-- The names of the definitions that the document of a name carries. -/
def definitionNames (exported : ExportedSet) (settings : ExportSettings) (name : String) :
    List String :=
  (((exported.get? name).bind (Json.get? settings.definitionsKey)).bind Json.object?).elim []
    Keyed.keys

/-- Whether an instance is valid against the document of a name. -/
def checkInstance (exported : ExportedSet) (name : String) (inst : Json) :
    Except SchemaError Bool :=
  match exported.get? name with
  | none => .error (.unknownEntry name)
  | some document =>
    if Draft07.isSchema document then .ok (Draft07.isValid document inst)
    else .error (.rejectedDocument "the document is no draft-07 schema")

end ExportedSet
end SchemaSets
