import SchemaSets.Lazy.Rendered
import SchemaSets.Proofs.Deferred.Searching

/-!
# Schemas and documents that ask for children

A schema is written of every node outside function signatures, so its writer asks for
the child of every lazy node that it comes to, and for each field of an object it asks
whether the field may be absent.  The documents of a set are made of schemas of its
entries.

With everything built anew schemas and documents come out as those of the compiled set
(`outcome_schemaThrough`, `outcome_exportThrough`).
-/

namespace SchemaSets

namespace Planted

mutual
/-- Writes the members of the schema of a validator at a place. -/
def schemaThrough (set : Planted) (key : String) (place : Place) (v : Deferred) :
    Demand (List (String × Json)) :=
  match v with
  | .object fields closed =>
    (schemaFieldsThrough set key place 0 fields).map fun written =>
      (if closed then [("additionalProperties", .bool false)] else []) ++
      [("properties", .object written.1)] ++
      (match written.2 with
        | [] => []
        | names => [("required", Json.strings names)]) ++
      [("type", .string "object")]
  | .array item => (schemaThrough set key (place.child 0) item).map fun members =>
    [("items", .object members), ("type", .string "array")]
  | .record value => (schemaThrough set key (place.child 0) value).map fun members =>
    [("additionalProperties", .object members), ("type", .string "object")]
  | .union branches => (schemaListThrough set key place 0 branches).map fun schemas =>
    [("anyOf", .array schemas)]
  | .lazy _ source => .force place source fun child _hbuilt =>
    schemaThrough set key (place.child 0) child
  | .optional inner => schemaThrough set key (place.child 0) inner
  | leaf => .done (leaf.full.schemaMembers {} key)
termination_by 2 * v.full.size
decreasing_by
  all_goals (try subst _hbuilt)
  all_goals
    simp only [Deferred.full, Source.full_build, Validator.size]
    omega
/-- Writes the schemas of branches. -/
def schemaListThrough (set : Planted) (key : String) (place : Place) (position : Nat)
    (vs : List Deferred) : Demand (List Json) :=
  match vs with
  | [] => .done []
  | v :: rest => (schemaThrough set key (place.child position) v).andThen fun members =>
    (schemaListThrough set key place (position + 1) rest).map (.object members :: ·)
termination_by 2 * Validator.sizeList (Deferred.fullList vs) + 1
decreasing_by
  all_goals
    have := v.full.size_pos
    simp only [Deferred.fullList, Validator.sizeList]
    omega
/-- Writes the schemas of fields, and the names of those that may not be absent. -/
def schemaFieldsThrough (set : Planted) (key : String) (place : Place) (position : Nat)
    (fields : List (String × Deferred)) : Demand (List (String × Json) × List String) :=
  match fields with
  | [] => .done ([], [])
  | (name, v) :: rest => (schemaThrough set key (place.child position) v).andThen fun members =>
    (set.absenceThrough ⟨place.child position, v⟩).andThen fun may =>
      (schemaFieldsThrough set key place (position + 1) rest).map fun written =>
        ((name, .object members) :: written.1, if may then written.2 else name :: written.2)
termination_by 2 * Validator.sizeFields (Deferred.fullFields fields) + 1
decreasing_by
  all_goals
    have := v.full.size_pos
    simp only [Deferred.fullFields, Validator.sizeFields]
    omega
end

/-! ## Outcomes of writing schemas -/

section Schemas

variable {planted : Planted} {shelf : Shelf} {set : CompiledSet} {key : String}

mutual
/-- With everything built anew, the schema of a planted validator is that of the
validator, and the writer asks for what writing that schema builds. -/
theorem Yields.outcome_schemaThrough (hyields : planted.Yields shelf set) (whole : Validator)
    (hinward : ∀ link ∈ whole.links, link.registry = planted.registry) {v : Deferred}
    (hfull : v.full = whole) (place : Place) :
    (planted.schemaThrough key place v).outcome =
      (whole.schemaMembers shelf key, whole.builtBySchema shelf place) := by
  cases whole with
  | object fields closed =>
      obtain ⟨unbuilt, rfl, hfields⟩ := Deferred.origin_of_full_eq hfull
      rw [schemaThrough, Demand.outcome_map,
        hyields.outcome_schemaFieldsThrough fields hinward hfields.symm]
      rfl
  | array item =>
      obtain ⟨unbuilt, rfl, hitem⟩ := Deferred.origin_of_full_eq hfull
      rw [schemaThrough, Demand.outcome_map,
        hyields.outcome_schemaThrough item hinward hitem.symm, Validator.schemaMembers,
        Validator.builtBySchema]
  | record value =>
      obtain ⟨unbuilt, rfl, hvalue⟩ := Deferred.origin_of_full_eq hfull
      rw [schemaThrough, Demand.outcome_map,
        hyields.outcome_schemaThrough value hinward hvalue.symm, Validator.schemaMembers,
        Validator.builtBySchema]
  | union branches =>
      obtain ⟨unbuilt, rfl, hbranches⟩ := Deferred.origin_of_full_eq hfull
      rw [schemaThrough, Demand.outcome_map,
        hyields.outcome_schemaListThrough branches hinward hbranches.symm, Validator.schemaMembers,
        Validator.builtBySchema]
  | lazy label child =>
      obtain ⟨source, rfl, hchild⟩ := Deferred.origin_of_full_eq hfull
      rw [schemaThrough, Demand.outcome,
        hyields.outcome_schemaThrough child hinward (source.full_build.trans hchild.symm),
        Validator.schemaMembers, Validator.builtBySchema]
  | optional inner =>
      obtain ⟨unbuilt, rfl, hinner⟩ := Deferred.origin_of_full_eq hfull
      rw [schemaThrough, hyields.outcome_schemaThrough inner hinward hinner.symm,
        Validator.schemaMembers, Validator.builtBySchema]
  | _ =>
      cases v with
      | function args returns =>
          cases returns <;> cases hfull <;>
            simp [schemaThrough, Deferred.full, Validator.schemaMembers, Validator.builtBySchema]
      | _ =>
          cases hfull <;>
            simp [schemaThrough, Deferred.full, Validator.schemaMembers, Validator.builtBySchema]
/-- The schemas of planted validators are those of the validators. -/
theorem Yields.outcome_schemaListThrough (hyields : planted.Yields shelf set)
    (whole : List Validator)
    (hinward : ∀ link ∈ Validator.linksOfList whole, link.registry = planted.registry)
    {vs : List Deferred} (hfull : Deferred.fullList vs = whole) (place : Place) (position : Nat) :
    (planted.schemaListThrough key place position vs).outcome =
      (Validator.schemaList shelf key whole,
        Validator.builtBySchemaList shelf place position whole) := by
  cases whole with
  | nil =>
      cases vs with
      | nil => rw [schemaListThrough]; rfl
      | cons v vs => cases hfull
  | cons w ws =>
      cases vs with
      | nil => cases hfull
      | cons v vs =>
          obtain ⟨hfirst, hrest⟩ := List.cons.inj hfull
          obtain ⟨hinFirst, hinRest⟩ := List.forall_mem_append.1 hinward
          rw [schemaListThrough, Demand.outcome_andThen, Demand.outcome_map,
            hyields.outcome_schemaThrough w hinFirst hfirst,
            hyields.outcome_schemaListThrough ws hinRest hrest, Validator.schemaList,
            Validator.builtBySchemaList]
/-- The schemas of planted fields are those of the fields, and the same names are
required. -/
theorem Yields.outcome_schemaFieldsThrough (hyields : planted.Yields shelf set)
    (whole : List (String × Validator))
    (hinward : ∀ link ∈ Validator.linksOfFields whole, link.registry = planted.registry)
    {fields : List (String × Deferred)} (hfull : Deferred.fullFields fields = whole)
    (place : Place) (position : Nat) :
    (planted.schemaFieldsThrough key place position fields).outcome =
      ((Validator.schemaFields shelf key whole, requiredFields shelf whole),
        Validator.builtBySchemaFields shelf place position whole) := by
  cases whole with
  | nil =>
      cases fields with
      | nil => rw [schemaFieldsThrough]; rfl
      | cons field fields => cases hfull
  | cons w ws =>
      cases fields with
      | nil => cases hfull
      | cons field fields =>
          obtain ⟨name, v⟩ := field
          obtain ⟨same, w⟩ := w
          obtain ⟨hfirst, hrest⟩ := List.cons.inj hfull
          obtain ⟨rfl, hv⟩ := Prod.mk.inj hfirst
          obtain ⟨hinFirst, hinRest⟩ := List.forall_mem_append.1 hinward
          rw [schemaFieldsThrough, Demand.outcome_andThen, Demand.outcome_andThen,
            Demand.outcome_map, hyields.outcome_schemaThrough w hinFirst hv,
            hyields.mirrors.outcome_absenceThrough hinFirst hv,
            hyields.outcome_schemaFieldsThrough ws hinRest hrest, Validator.schemaFields,
            Validator.builtBySchemaFields, List.append_assoc, requiredFields, requiredFields,
            List.filter_cons]
          cases w.mayBeAbsent shelf <;> rfl
end

end Schemas

/-! ## Documents -/

/-- Writes the schema of an entry. -/
def entryThrough (set : Planted) (key : String) (entry : String × Deferred) :
    Demand (List (String × Json)) :=
  set.schemaThrough key (.ofEntry set.registry entry.1) entry.2

/-- Writes the definitions of some names; names without an entry are passed over. -/
def definitionsThrough (set : Planted) (key : String) (names : List String) :
    Demand (List (String × Json)) :=
  .each (fun entry => (set.entryThrough key entry).map fun members =>
      (entry.1, .object members))
    (names.filterMap fun name => (set.get? name).map (Prod.mk name))

/-- Writes the document of an entry, the definitions first. -/
def documentThrough (set : Planted) (settings : ExportSettings)
    (dependencies : List (String × List String)) (entry : String × Deferred) : Demand Json :=
  (set.definitionsThrough settings.definitionsKey
      (CompiledSet.scope dependencies entry.1)).andThen fun definitions =>
    (set.entryThrough settings.definitionsKey entry).map fun members =>
      let members := Keyed.insert settings.definitionsKey (.object definitions) members
      .object <|
        if settings.includeSchemaUri then Keyed.insert "$schema" (.string dialect) members
        else members

/-- Writes the documents of all entries. -/
def exportThrough (set : Planted) (settings : ExportSettings)
    (dependencies : List (String × List String)) : Demand ExportedSet :=
  (Demand.each (fun entry => (set.documentThrough settings dependencies entry).map fun document =>
    (entry.1, document)) set.entries).map ExportedSet.mk

/-! ## Outcomes of exporting -/

section Documents

variable {planted : Planted} {shelf : Shelf} {set : CompiledSet}

/-- The schema of an entry comes out as that of its validator. -/
theorem Yields.outcome_entryThrough (hyields : planted.Yields shelf set) {name : String}
    {v : Deferred} (hv : planted.get? name = some v) (key : String) :
    (planted.entryThrough key (name, v)).outcome =
      (v.full.schemaMembers shelf key,
        (Located.ofEntry planted.registry name v.full).builtBySchema shelf) :=
  hyields.outcome_schemaThrough v.full (hyields.inward hv) rfl _

/-- Definitions come out as those of the compiled set. -/
theorem Yields.outcome_definitionsThrough (hyields : planted.Yields shelf set)
    (settings : ExportSettings) (names : List String) :
    (planted.definitionsThrough settings.definitionsKey names).outcome =
      (set.definitions shelf settings names,
        (names.filterMap (set.located? planted.registry)).flatMap fun node =>
          node.builtBySchema shelf) := by
  rw [definitionsThrough, Demand.outcome_each, CompiledSet.definitions]
  simp only [Demand.outcome_map]
  induction names with
  | nil => rfl
  | cons name names ih =>
      rw [Prod.mk.injEq] at ih
      rw [List.filterMap_cons, List.filterMap_cons, List.filterMap_cons, CompiledSet.located?,
        hyields.get?_eq]
      cases hv : planted.get? name with
      | none => exact Prod.ext ih.1 ih.2
      | some v =>
          simp only [Option.map_some, List.map_cons, List.flatMap_cons, ih.1, ih.2,
            hyields.outcome_entryThrough hv]
          rfl

/-- The document of an entry comes out as that of the compiled set. -/
theorem Yields.outcome_documentThrough (hyields : planted.Yields shelf set) {name : String}
    {v : Deferred} (hv : planted.get? name = some v) (settings : ExportSettings)
    (dependencies : List (String × List String)) :
    (planted.documentThrough settings dependencies (name, v)).outcome =
      (set.document shelf settings dependencies (.of name v.full),
        ((CompiledSet.scope dependencies name ++ [name]).filterMap
            (set.located? planted.registry)).flatMap fun node => node.builtBySchema shelf) := by
  have hlocated : set.located? planted.registry name =
      some (.ofEntry planted.registry name v.full) := by
    rw [CompiledSet.located?, hyields.get?_eq, hv]
    rfl
  rw [documentThrough, Demand.outcome_andThen, Demand.outcome_map,
    hyields.outcome_definitionsThrough, hyields.outcome_entryThrough hv, List.filterMap_append,
    List.flatMap_append, List.filterMap_cons_some hlocated, List.filterMap_nil,
    List.flatMap_singleton]
  rfl

/-- With everything built anew, the documents of a planted set are those of the compiled
set, and the writer asks for what exporting that set builds. -/
theorem Yields.outcome_exportThrough (hyields : planted.Yields shelf set)
    (hsorted : Keyed.Sorted planted.entries) (settings : ExportSettings)
    (dependencies : List (String × List String)) :
    (planted.exportThrough settings dependencies).outcome =
      (set.exportWith shelf settings dependencies,
        set.builtByExport shelf planted.registry dependencies) := by
  have hdocument : ∀ entry ∈ planted.entries,
      (planted.documentThrough settings dependencies entry).outcome = _ := fun entry hentry =>
    hyields.outcome_documentThrough (Keyed.find?_of_mem hsorted hentry) settings dependencies
  rw [exportThrough, Demand.outcome_map, Demand.outcome_each, CompiledSet.exportWith,
    CompiledSet.builtByExport, hyields.names_eq, hyields.entries]
  refine Prod.ext (congrArg ExportedSet.mk ?_) ?_
  · rw [Keyed.mapValues, List.map_map]
    refine List.map_congr_left fun entry hentry => ?_
    rw [Demand.outcome_map, hdocument entry hentry]
    rfl
  · rw [names, Keyed.keys, List.flatMap_map]
    refine List.flatMap_congr fun entry hentry => ?_
    rw [Demand.outcome_map, hdocument entry hentry]

end Documents

end Planted
end SchemaSets
