import SchemaSets.Proofs.Describes
import SchemaSets.Proofs.Documents

/-!
# Documents hold what they refer to

A document holds the reference texts of its definitions and no others: those of
the entry itself are among them, since an entry is always one of its own
definitions (`mem_references_document_iff`).  The scope of a document is closed
under dependencies, so what a definition refers to is a definition again, and
the reference leads there.

One name is no dependency, whoever refers to it.  A document has a definition
of the reserved name only if it is the document of that name; everywhere else a
reference to it leads nowhere (`references_lead`).
-/

namespace SchemaSets

open Relation

namespace Draft07

/-! ## Reference texts -/

/-- The reference texts among members are those of each member. -/
theorem mem_referencesOfMembers_iff {text : String} {members : List (String × Json)} :
    text ∈ referencesOfMembers members ↔
      ∃ member ∈ members, text ∈ referencesOfMembers [member] := by
  induction members with
  | nil => simp [referencesOfMembers]
  | cons member rest ih =>
      have hcons : ∀ t, t ∈ referencesOfMembers (member :: rest) ↔
          t ∈ referencesOfMembers [member] ∨ t ∈ referencesOfMembers rest := by
        intro t
        obtain ⟨key, value⟩ := member
        cases value with
        | string s =>
            by_cases hkey : key = "$ref" <;> simp [referencesOfMembers, hkey]
        | _ => simp [referencesOfMembers]
      rw [hcons, ih]
      simp

/-- The reference texts of an object under a key. -/
theorem referencesOfMembers_object (key : String) (members : List (String × Json)) :
    referencesOfMembers [(key, .object members)] = referencesOfMembers members := by
  simp [referencesOfMembers, references]

/-- A list of texts holds no references. -/
theorem referencesOfMembers_cons_strings (key : String) (texts : List String)
    (rest : List (String × Json)) :
    referencesOfMembers ((key, Json.strings texts) :: rest) = referencesOfMembers rest := by
  have hitems : referencesOfItems (texts.map Json.string) = [] := by
    induction texts with
    | nil => rfl
    | cons text texts ih => simpa [referencesOfItems, references] using ih
  rw [Json.strings]
  simp [referencesOfMembers, references, hitems]

mutual
/-- The reference texts of a rendered validator are those of its links. -/
theorem referencesOfMembers_schemaMembers (shelf : Shelf) (key : String) (v : Validator) :
    referencesOfMembers (v.schemaMembers shelf key) =
      v.links.map fun link => definitionReference key link.target := by
  cases v with
  | object fields closed =>
      have hfields := referencesOfMembers_schemaFields shelf key fields
      rw [Validator.schemaMembers, Validator.links, ← hfields]
      cases closed <;> cases requiredFields shelf fields <;>
        simp [referencesOfMembers, references, referencesOfMembers_cons_strings]
  | array item =>
      simp [Validator.schemaMembers, Validator.links, referencesOfMembers, references,
        referencesOfMembers_schemaMembers shelf key item]
  | record value =>
      simp [Validator.schemaMembers, Validator.links, referencesOfMembers, references,
        referencesOfMembers_schemaMembers shelf key value]
  | union branches =>
      simp [Validator.schemaMembers, Validator.links, referencesOfMembers, references,
        referencesOfItems_schemaList shelf key branches]
  | lazy label child => exact referencesOfMembers_schemaMembers shelf key child
  | optional inner => exact referencesOfMembers_schemaMembers shelf key inner
  | enumeration values =>
      rw [Validator.schemaMembers, referencesOfMembers_cons_strings]
      simp [Validator.links, referencesOfMembers]
  | _ => simp [Validator.schemaMembers, Validator.links, referencesOfMembers]
/-- The reference texts of rendered validators. -/
theorem referencesOfItems_schemaList (shelf : Shelf) (key : String) (vs : List Validator) :
    referencesOfItems (Validator.schemaList shelf key vs) =
      (Validator.linksOfList vs).map fun link => definitionReference key link.target := by
  cases vs with
  | nil => rfl
  | cons v vs =>
      simp [Validator.schemaList, Validator.linksOfList, referencesOfItems, references,
        referencesOfMembers_schemaMembers shelf key v, referencesOfItems_schemaList shelf key vs]
/-- The reference texts of rendered fields. -/
theorem referencesOfMembers_schemaFields (shelf : Shelf) (key : String)
    (fields : List (String × Validator)) :
    referencesOfMembers (Validator.schemaFields shelf key fields) =
      (Validator.linksOfFields fields).map fun link => definitionReference key link.target := by
  cases fields with
  | nil => rfl
  | cons field rest =>
      obtain ⟨name, v⟩ := field
      simp [Validator.schemaFields, Validator.linksOfFields, referencesOfMembers, references,
        referencesOfMembers_schemaMembers shelf key v,
        referencesOfMembers_schemaFields shelf key rest]
end

end Draft07

open Draft07

variable {set : SchemaSet} {settings : CompilerSettings} {shelf : Shelf} {registry : Handle}
variable {exporter : ExportSettings} {name text : String}

/-- The reference texts of a compiled entry are those of the references in its
element. -/
theorem mem_referencesOfMembers_compile_iff {entry : Entry}
    (h : (set.compile settings registry).get? name = some entry) {key : String} :
    text ∈ referencesOfMembers (entry.validator.schemaMembers shelf key) ↔
      ∃ target, set.Refers name target ∧ text = definitionReference key target := by
  obtain ⟨e, he, rfl⟩ := SchemaSet.exists_of_get?_compile h
  rw [referencesOfMembers_schemaMembers, List.mem_map]
  constructor
  · rintro ⟨link, hlink, rfl⟩
    exact ⟨link.target, ⟨e, he, (Element.mem_links_compile.1 hlink).1⟩, rfl⟩
  · rintro ⟨target, ⟨found, hfound, htarget⟩, rfl⟩
    rw [he, Option.some.injEq] at hfound
    subst hfound
    exact ⟨⟨target, name, registry⟩, Element.mem_links_compile.2 ⟨htarget, rfl, rfl⟩, rfl⟩

/-- The reference texts of definitions are those of the entries that they define. -/
theorem mem_referencesOfMembers_definitions_iff {names : List String} :
    text ∈ referencesOfMembers
        ((set.compile settings registry).definitions shelf exporter names) ↔
      ∃ source ∈ names, ∃ target, set.Refers source target ∧
        text = definitionReference exporter.definitionsKey target := by
  rw [mem_referencesOfMembers_iff, CompiledSet.definitions]
  constructor
  · rintro ⟨member, hmember, htext⟩
    obtain ⟨source, hsource, hdefinition⟩ := List.mem_filterMap.1 hmember
    obtain ⟨entry, hentry, rfl⟩ := Option.map_eq_some_iff.1 hdefinition
    rw [Validator.schema, referencesOfMembers_object] at htext
    exact ⟨source, hsource, (mem_referencesOfMembers_compile_iff hentry).1 htext⟩
  · rintro ⟨source, hsource, target, hrefers, htext⟩
    obtain ⟨e, he, htarget⟩ := hrefers
    have hentry : (set.compile settings registry).get? source = some (Entry.of source _) :=
      SchemaSet.get?_compile_of_eq he
    refine ⟨_, List.mem_filterMap.2 ⟨source, hsource, by rw [hentry, Option.map_some]⟩, ?_⟩
    rw [Validator.schema, referencesOfMembers_object]
    exact (mem_referencesOfMembers_compile_iff hentry).2 ⟨target, ⟨e, he, htarget⟩, htext⟩

/-- The reference texts of a document are those of its definitions, which the entry
itself is among. -/
theorem mem_references_document_iff {dependencies : List (String × List String)} {entry : Entry}
    (hkey : exporter.definitionsKey ≠ "$schema")
    (h : (set.compile settings registry).get? entry.name = some entry) :
    text ∈ references
        ((set.compile settings registry).document shelf exporter dependencies entry) ↔
      ∃ source ∈ CompiledSet.scope dependencies entry.name, ∃ target,
        set.Refers source target ∧ text = definitionReference exporter.definitionsKey target := by
  constructor
  · intro htext
    rw [CompiledSet.document, references, mem_referencesOfMembers_iff] at htext
    obtain ⟨member, hmember, htext⟩ := htext
    -- a member of the document is its dialect, its definitions or a part of its schema
    have hparts : member = ("$schema", .string dialect) ∨
        member ∈ Keyed.insert exporter.definitionsKey (.object ((set.compile settings
          registry).definitions shelf exporter (CompiledSet.scope dependencies entry.name)))
            (entry.validator.schemaMembers shelf exporter.definitionsKey) := by
      split at hmember
      · exact Keyed.mem_of_mem_insert hmember
      · exact .inr hmember
    rcases hparts with rfl | hmember
    · simp [referencesOfMembers] at htext
    · rcases Keyed.mem_of_mem_insert hmember with rfl | hschema
      · rw [referencesOfMembers_object] at htext
        exact mem_referencesOfMembers_definitions_iff.1 htext
      · have hown := mem_referencesOfMembers_iff.2 ⟨member, hschema, htext⟩
        exact ⟨entry.name, Keyed.mem_nameSet.2 List.mem_cons_self,
          (mem_referencesOfMembers_compile_iff h).1 hown⟩
  · intro hsource
    obtain ⟨members, hmembers, hdefinitions, -⟩ := exists_members_document shelf dependencies
      (set.compile settings registry) entry hkey
    rw [hmembers, references]
    refine mem_referencesOfMembers_iff.2 ⟨_, Keyed.mem_of_find? hdefinitions, ?_⟩
    rw [referencesOfMembers_object]
    exact mem_referencesOfMembers_definitions_iff.2 hsource

/-! ## Where references lead -/

namespace SchemaSet

/-- Dependencies lead from one name to the reserved name only if they are the same. -/
theorem reservedName_mem_scope_iff (h : set.contains name = true) :
    reservedName ∈ CompiledSet.scope set.dependencyMap name ↔ name = reservedName := by
  rw [mem_scope_iff h]
  constructor
  · intro hpath
    cases hpath with
    | refl => rfl
    | tail _ hlast => exact absurd rfl (depends_iff.1 hlast).2
  · rintro rfl
    exact .refl

/-- What a name in scope refers to is in scope, unless it is the reserved name. -/
theorem mem_scope_of_refers {source target : String} (h : set.contains name = true)
    (hsource : source ∈ CompiledSet.scope set.dependencyMap name)
    (hrefers : set.Refers source target) (hreserved : target ≠ reservedName) :
    target ∈ CompiledSet.scope set.dependencyMap name := by
  rw [mem_scope_iff h] at hsource ⊢
  exact hsource.tail (depends_iff.2 ⟨hrefers, hreserved⟩)

end SchemaSet

/-- In a set without dangling references, the reference texts of the document of an
entry are those of the entry and of all that it depends on.  Each leads to the
rendering of the entry that it names, within the document.  Only the reserved
name is left out: unless the document is its own, a reference to it leads
nowhere. -/
theorem references_lead (hclosed : set.DanglingFree)
    (hkey : exporter.definitionsKey ≠ "$schema") (hname : set.contains name = true) :
    ∃ document,
      ((set.compile settings registry).exportFor shelf exporter set).get? name = some document ∧
      (∀ text, text ∈ references document ↔
        ∃ source target, ReflTransGen set.Depends name source ∧ set.Refers source target ∧
          text = definitionReference exporter.definitionsKey target) ∧
      ∀ source target, ReflTransGen set.Depends name source → set.Refers source target →
        ∃ entry, (set.compile settings registry).get? target = some entry ∧
          target? document (definitionReference exporter.definitionsKey target) =
            if target = reservedName ∧ name ≠ reservedName then none
            else some (entry.validator.schema shelf exporter) := by
  obtain ⟨e, he⟩ := Option.isSome_iff_exists.1 hname
  have hentry : (set.compile settings registry).get? name = some (Entry.of name _) :=
    SchemaSet.get?_compile_of_eq he
  refine ⟨_, get?_exportFor hentry, fun text => ?_, fun source target hsource hrefers => ?_⟩
  · rw [mem_references_document_iff hkey hentry]
    simp only [Entry.of, SchemaSet.mem_scope_iff hname, exists_and_left]
  · have hscope : target ∈ CompiledSet.scope set.dependencyMap name ↔
        ¬(target = reservedName ∧ name ≠ reservedName) := by
      by_cases hreserved : target = reservedName
      · subst hreserved
        rw [SchemaSet.reservedName_mem_scope_iff hname]
        simp
      · have hmem := SchemaSet.mem_scope_of_refers hname
          ((SchemaSet.mem_scope_iff hname).2 hsource) hrefers hreserved
        exact iff_of_true hmem fun h => hreserved h.1
    obtain ⟨found, hfound, htarget⟩ := hrefers
    obtain ⟨other, hother⟩ := Option.isSome_iff_exists.1
      (hclosed _ (Keyed.mem_of_find? hfound) target htarget)
    refine ⟨_, SchemaSet.get?_compile_of_eq hother, ?_⟩
    rw [target?_document _ _ _ _ hkey, SchemaSet.get?_compile_of_eq hother, Option.map_some]
    by_cases houtside : target = reservedName ∧ name ≠ reservedName
    · rw [if_pos houtside]
      exact if_neg fun h => hscope.1 h houtside
    · rw [if_neg houtside]
      exact if_pos (hscope.2 houtside)

/-- Two entries that refer to each other under names that have to be escaped. -/
def slashed : SchemaSet :=
  .ofList [("a/b", .array (.reference "~1" false) false),
    ("~1", .union [.reference "a/b" false, .simple .string false] false)]

/-- The documents of names with slashes and tildes hold what they refer to. -/
theorem references_lead_slashed :
    ∃ document,
      ((slashed.compile {} (.ofSet 0)).exportFor
        (({} : Shelf).put 0 (slashed.compile {} (.ofSet 0))) { definitionsKey := "~/" }
        slashed).get? "a/b" = some document ∧
      "#/~0~1/~01" ∈ references document ∧
      ∃ entry, (slashed.compile {} (.ofSet 0)).get? "~1" = some entry ∧
        target? document "#/~0~1/~01" = some (entry.validator.schema
          (({} : Shelf).put 0 (slashed.compile {} (.ofSet 0))) { definitionsKey := "~/" }) := by
  have hkey : ({ definitionsKey := "~/" } : ExportSettings).definitionsKey ≠ "$schema" := by decide
  have hrefers : slashed.Refers "a/b" "~1" :=
    ⟨.array (.reference "~1" false) false, by decide, by decide⟩
  have htext : definitionReference "~/" "~1" = "#/~0~1/~01" := by decide
  obtain ⟨document, hdocument, hreferences, hlead⟩ := @references_lead slashed {}
    (({} : Shelf).put 0 (slashed.compile {} (.ofSet 0))) (.ofSet 0) _ "a/b" (by decide) hkey
      (by decide)
  obtain ⟨entry, hentry, htarget⟩ := hlead "a/b" "~1" .refl hrefers
  refine ⟨document, hdocument, (hreferences _).2 ⟨"a/b", "~1", .refl, hrefers, htext.symm⟩, entry,
    hentry, ?_⟩
  rw [← htext, htarget, if_neg (by decide)]

/-- An entry that refers to an entry of the reserved name. -/
def towardsReserved : SchemaSet :=
  .ofList [("A", .reference reservedName false), (reservedName, .simple .string false)]

/-- Every reference of this set names an entry, and yet a document of it holds a
reference that leads nowhere. -/
theorem reserved_leads_nowhere :
    towardsReserved.DanglingFree ∧
      ∃ document,
        ((towardsReserved.compile {} (.ofSet 0)).exportFor
          (({} : Shelf).put 0 (towardsReserved.compile {} (.ofSet 0))) {} towardsReserved).get?
            "A" = some document ∧
        definitionReference "definitions" reservedName ∈ references document ∧
        target? document (definitionReference "definitions" reservedName) = none := by
  have hname : towardsReserved.contains "A" = true := by decide
  have hfound : towardsReserved.get? "A" = some (.reference reservedName false) := by decide
  have hentry : (towardsReserved.compile {} (.ofSet 0)).get? "A" = some (Entry.of "A" _) :=
    SchemaSet.get?_compile_of_eq hfound
  have hkey : ({} : ExportSettings).definitionsKey ≠ "$schema" := by decide
  have hscope : reservedName ∉ CompiledSet.scope towardsReserved.dependencyMap "A" :=
    fun h => absurd ((SchemaSet.reservedName_mem_scope_iff hname).1 h) (by decide)
  refine ⟨by decide, _, get?_exportFor hentry, ?_, ?_⟩
  · refine (mem_references_document_iff hkey hentry).2 ⟨"A", ?_, reservedName, ?_, rfl⟩
    · exact Keyed.mem_nameSet.2 List.mem_cons_self
    · exact ⟨_, hfound, List.mem_singleton_self _⟩
  · rw [target?_document _ _ _ _ hkey]
    exact if_neg hscope

end SchemaSets
