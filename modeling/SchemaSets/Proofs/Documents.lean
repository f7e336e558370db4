import SchemaSets.Proofs.Compiled
import SchemaSets.Proofs.Links
import SchemaSets.Proofs.Meaning
import SchemaSets.Proofs.Pointer
import SchemaSets.Proofs.Reach

/-!
# What a document carries

The document of an entry is put together from the schema of its validator, the
definitions and the name of the dialect, and later parts replace earlier ones of
the same key.  So under any key but that of the dialect the definitions are
where a pointer looks for them, and what it finds for a name is known from the
scope of the document alone (`target?_document`).
-/

namespace SchemaSets

open Draft07

variable {set : SchemaSet} {compiled : CompiledSet} {settings : CompilerSettings}
variable {shelf : Shelf} {registry : Handle} {exporter : ExportSettings}
variable {name : String} {entry : Entry}

/-- An exported set has a document for each entry and for no other name. -/
theorem get?_exportWith (dependencies : List (String × List String)) (name : String) :
    (compiled.exportWith shelf exporter dependencies).get? name =
      (compiled.get? name).map (compiled.document shelf exporter dependencies) := by
  have hdocuments : (compiled.exportWith shelf exporter dependencies).documents =
      Keyed.mapValues (fun _ entry => compiled.document shelf exporter dependencies entry)
        compiled.entries := rfl
  rw [ExportedSet.get?, hdocuments, Keyed.find?_mapValues, ← CompiledSet.get?]

/-- An exported set has the document of every entry. -/
theorem get?_exportFor (h : compiled.get? name = some entry) :
    (compiled.exportFor shelf exporter set).get? name =
      some (compiled.document shelf exporter set.dependencyMap entry) := by
  rw [CompiledSet.exportFor, get?_exportWith, h, Option.map_some]

/-- The definition of a name is the schema of its entry. -/
theorem find?_definitions (names : List String) (target : String) :
    Keyed.find? target (compiled.definitions shelf exporter names) =
      if target ∈ names then
        (compiled.get? target).map fun entry => entry.validator.schema shelf exporter
      else none := by
  have hfilterMap := Keyed.find?_filterMap (fun name =>
    (compiled.get? name).map fun entry => entry.validator.schema shelf exporter) names target
  simpa only [CompiledSet.definitions, Option.map_map, Function.comp_def] using hfilterMap

/-- A document is the schema of its entry with the definitions beside it. -/
theorem exists_members_document (shelf : Shelf) (dependencies : List (String × List String))
    (compiled : CompiledSet) (entry : Entry) (hkey : exporter.definitionsKey ≠ "$schema") :
    ∃ members, compiled.document shelf exporter dependencies entry = .object members ∧
      Keyed.find? exporter.definitionsKey members = some (.object
        (compiled.definitions shelf exporter (CompiledSet.scope dependencies entry.name))) ∧
      ∀ keyword, keyword ≠ exporter.definitionsKey → keyword ≠ "$schema" →
        Keyed.find? keyword members =
          Keyed.find? keyword (entry.validator.schemaMembers shelf exporter.definitionsKey) := by
  refine ⟨_, rfl, ?_, fun keyword hdefinitions hdialect => ?_⟩
  · split <;> simp [Keyed.find?_insert, Ne.symm hkey]
  · split <;> simp [Keyed.find?_insert, Ne.symm hdefinitions, Ne.symm hdialect]

/-- A reference to a name in scope leads to the schema of its entry, and a reference
to any other name leads nowhere. -/
theorem target?_document (shelf : Shelf) (dependencies : List (String × List String))
    (compiled : CompiledSet) (entry : Entry) (hkey : exporter.definitionsKey ≠ "$schema")
    (target : String) :
    target? (compiled.document shelf exporter dependencies entry)
        (definitionReference exporter.definitionsKey target) =
      if target ∈ CompiledSet.scope dependencies entry.name then
        (compiled.get? target).map fun entry => entry.validator.schema shelf exporter
      else none := by
  obtain ⟨members, hmembers, hdefinitions, -⟩ :=
    exists_members_document shelf dependencies compiled entry hkey
  rw [hmembers, target?, Json.Pointer.toList_definitionReference]
  simp only [Json.Pointer.tokens?_definitionReference, Option.bind_some, Json.Pointer.follow?,
    hdefinitions, find?_definitions]
  exact Option.bind_fun_some _

end SchemaSets
