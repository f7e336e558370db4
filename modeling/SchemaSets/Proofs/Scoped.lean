import Mathlib.Order.Bounds.Basic
import SchemaSets.Proofs.SelfContained

/-!
# Documents hold no more than they refer to

Which definitions a document carries is worked out from the elements, before
anything is compiled.  What a reader of the document needs is told by the
document: the schema of the entry, the schemas that it refers to, and so on.
`Mentions` is this second notion of reference.  It is read off the rendering of
a validator and knows nothing of elements.

The two notions agree wherever nothing refers to the reserved name
(`mem_dependencies_iff_mentions`): lazy nodes are written as their children, and
a signature is neither looked into nor written.  So the definitions of a document
are the least names that hold the entry and every entry that one of their own
schemas mentions (`isLeast_definitions`).  A name without an entry is mentioned
and leads no further.
-/

namespace SchemaSets

open Draft07 Relation

/-- A reference to a definition tells the name that it leads to. -/
theorem definitionReference_inj {key target other : String}
    (h : definitionReference key target = definitionReference key other) : target = other := by
  have htokens := congrArg String.toList h
  rw [Json.Pointer.toList_definitionReference, Json.Pointer.toList_definitionReference,
    List.cons.injEq] at htokens
  have hread := congrArg Json.Pointer.tokens? htokens.2
  rw [Json.Pointer.tokens?_definitionReference, Json.Pointer.tokens?_definitionReference] at hread
  simpa using hread

namespace CompiledSet

/-- The schema of an entry holds a reference to a name. -/
def Mentions (compiled : CompiledSet) (shelf : Shelf) (exporter : ExportSettings)
    (source target : String) : Prop :=
  ∃ entry, compiled.get? source = some entry ∧
    definitionReference exporter.definitionsKey target ∈
      references (entry.validator.schema shelf exporter)

/-- Some names hold a name, and every entry that one of their schemas mentions. -/
structure ClosedAround (compiled : CompiledSet) (shelf : Shelf) (exporter : ExportSettings)
    (name : String) (names : Set String) : Prop where
  self : name ∈ names
  mentioned : ∀ source ∈ names, ∀ target, compiled.contains target = true →
    compiled.Mentions shelf exporter source target → target ∈ names

end CompiledSet

variable {set : SchemaSet} {settings : CompilerSettings} {shelf : Shelf} {registry : Handle}
variable {exporter : ExportSettings} {name : String}

/-- A compiled set has the entries of its elements. -/
theorem SchemaSet.contains_compile (target : String) :
    (set.compile settings registry).contains target = set.contains target := by
  have hcompiled : (set.compile settings registry).contains target =
      ((set.compile settings registry).get? target).isSome := rfl
  have hset : set.contains target = (set.get? target).isSome := rfl
  rw [hcompiled, hset, SchemaSet.get?_compile, Option.isSome_map]

/-- The schema of a compiled entry mentions what its element refers to. -/
theorem mentions_compile_iff {source target : String} :
    (set.compile settings registry).Mentions shelf exporter source target ↔
      set.Refers source target := by
  constructor
  · rintro ⟨entry, hentry, htext⟩
    have hrendered := (mem_referencesOfMembers_compile_iff hentry).1 htext
    obtain ⟨other, hrefers, hsame⟩ := hrendered
    have hother : target = other := definitionReference_inj hsame
    exact hother ▸ hrefers
  · intro hrefers
    obtain ⟨e, he, -⟩ := id hrefers
    have hentry : (set.compile settings registry).get? source = some (Entry.of source _) :=
      SchemaSet.get?_compile_of_eq he
    exact ⟨_, hentry, (mem_referencesOfMembers_compile_iff hentry).2 ⟨target, hrefers, rfl⟩⟩

/-- Where nothing refers to the reserved name, the dependencies of an element are
the names that its schema mentions. -/
theorem mem_dependencies_iff_mentions
    (hreserved : ∀ entry ∈ set.elements, reservedName ∉ entry.2.targets) {source : String}
    {e : Element} (he : set.get? source = some e) (target : String) :
    target ∈ e.dependencies ↔
      (set.compile settings registry).Mentions shelf exporter source target := by
  have hsuccessors : set.Depends source target ↔ target ∈ e.dependencies := by
    rw [SchemaSet.Depends, SchemaSet.successors, he]
  rw [mentions_compile_iff, ← hsuccessors, SchemaSet.depends_eq_refers hreserved]

/-- The names with a definition are the entries in scope. -/
theorem mem_keys_definitions_iff {compiled : CompiledSet} {names : List String}
    {target : String} :
    target ∈ Keyed.keys (compiled.definitions shelf exporter names) ↔
      target ∈ names ∧ compiled.contains target = true := by
  rw [← Keyed.contains_iff, Keyed.contains, find?_definitions, CompiledSet.contains,
    Keyed.contains, ← CompiledSet.get?]
  by_cases hscope : target ∈ names
  · simp [hscope]
  · simp [hscope]

/-- An entry that dependencies lead to is held by all names that are closed around
their start. -/
theorem mem_of_closedAround (hreserved : ∀ entry ∈ set.elements, reservedName ∉ entry.2.targets)
    {names : Set String}
    (hclosed : (set.compile settings registry).ClosedAround shelf exporter name names)
    {target : String} (hpath : ReflTransGen set.Depends name target)
    (htarget : set.contains target = true) : target ∈ names := by
  rw [SchemaSet.depends_eq_refers hreserved] at hpath
  induction hpath with
  | refl => exact hclosed.self
  | @tail source target _ hrefers ih =>
      -- what refers to something is an entry itself
      obtain ⟨e, he, -⟩ := id hrefers
      have hsource : set.contains source = true := Option.isSome_iff_exists.2 ⟨e, he⟩
      have hentry : (set.compile settings registry).contains target = true := by
        rw [SchemaSet.contains_compile, htarget]
      exact hclosed.mentioned source (ih hsource) target hentry (mentions_compile_iff.2 hrefers)

/-- In a set that nowhere refers to the reserved name, whether or not its references
are defined, the definitions of a document are exactly the least names that hold
the entry and every entry mentioned by the schema of one of these names; and the
dependencies of an element are what its schema mentions. -/
theorem isLeast_definitions
    (hreserved : ∀ entry ∈ set.elements, reservedName ∉ entry.2.targets)
    (hkey : exporter.definitionsKey ≠ "$schema") (hname : set.contains name = true) :
    (∃ document definitions,
      ((set.compile settings registry).exportFor shelf exporter set).get? name = some document ∧
      document.get? exporter.definitionsKey = some (.object definitions) ∧
      IsLeast {names | (set.compile settings registry).ClosedAround shelf exporter name names}
        {target | target ∈ Keyed.keys definitions}) ∧
    ∀ source e, set.get? source = some e → ∀ target, target ∈ e.dependencies ↔
      (set.compile settings registry).Mentions shelf exporter source target := by
  constructor
  · obtain ⟨e, he⟩ := Option.isSome_iff_exists.1 hname
    have hentry : (set.compile settings registry).get? name = some (Entry.of name _) :=
      SchemaSet.get?_compile_of_eq he
    obtain ⟨members, hmembers, hdefinitions, -⟩ := exists_members_document shelf
      set.dependencyMap (set.compile settings registry) (Entry.of name _) hkey
    have hkeys : ∀ target, target ∈ Keyed.keys ((set.compile settings registry).definitions shelf
        exporter (CompiledSet.scope set.dependencyMap name)) ↔
          ReflTransGen set.Depends name target ∧ set.contains target = true := by
      intro target
      rw [mem_keys_definitions_iff, SchemaSet.mem_scope_iff hname, SchemaSet.contains_compile]
    refine ⟨.object members, _, ?_, hdefinitions, ?_, ?_⟩
    · rw [get?_exportFor hentry, hmembers]
    · constructor
      · exact (hkeys name).2 ⟨.refl, hname⟩
      · intro source hsource target htarget hmentions
        have hpath := ((hkeys source).1 hsource).1
        have hdepends : set.Depends source target := by
          rw [SchemaSet.depends_eq_refers hreserved]
          exact mentions_compile_iff.1 hmentions
        have hcontains : set.contains target = true := by
          rw [← SchemaSet.contains_compile, htarget]
        exact (hkeys target).2 ⟨hpath.tail hdepends, hcontains⟩
    · intro names hclosed target htarget
      have hreached := (hkeys target).1 htarget
      exact mem_of_closedAround hreserved hclosed hreached.1 hreached.2
  · intro source e he target
    exact mem_dependencies_iff_mentions hreserved he target

/-- Items and groups of items refer to each other, and groups also to nothing; the
printer occurs in a signature only, and nothing refers to the store. -/
def catalogue : SchemaSet :=
  .ofList [("item", .object [("parent", .lazy (.reference "group" true) false),
      ("print", .function [.reference "printer" false] none false)] false),
    ("group", .union [.array (.reference "item" false) false, .reference "missing" false] false),
    ("printer", .simple .string false), ("store", .record (.reference "item" false) false)]

/-- The document of an item defines items and groups and nothing else. -/
theorem isLeast_definitions_catalogue :
    let compiled := catalogue.compile {} (.ofSet 0)
    let shelf := ({} : Shelf).put 0 compiled
    (∃ document definitions, (compiled.exportFor shelf {} catalogue).get? "item" = some document ∧
      document.get? "definitions" = some (.object definitions) ∧
      {target | target ∈ Keyed.keys definitions} = ({"item", "group"} : Set String)) ∧
    ∀ source e, catalogue.get? source = some e → ∀ target, target ∈ e.dependencies ↔
      compiled.Mentions shelf {} source target := by
  intro compiled shelf
  have hreserved : ∀ entry ∈ catalogue.elements, reservedName ∉ entry.2.targets := by decide
  have hkey : ({} : ExportSettings).definitionsKey ≠ "$schema" := by decide
  have hitem : catalogue.get? "item" = some (.object [("parent", .lazy (.reference "group" true)
      false), ("print", .function [.reference "printer" false] none false)] false) := by decide
  have hgroup : catalogue.get? "group" = some (.union [.array (.reference "item" false) false,
      .reference "missing" false] false) := by decide
  obtain ⟨⟨document, definitions, hdocument, hdefinitions, hleast⟩, hsame⟩ :=
    @isLeast_definitions catalogue {} shelf (.ofSet 0) {} "item" hreserved hkey (by decide)
  refine ⟨⟨document, definitions, hdocument, hdefinitions, hleast.unique ⟨⟨by simp, ?_⟩, ?_⟩⟩,
    hsame⟩
  · intro source hsource target htarget hmentions
    have hrefers : catalogue.Refers source target := mentions_compile_iff.1 hmentions
    have hentry : catalogue.contains target = true := by
      rw [← SchemaSet.contains_compile, htarget]
    rcases hsource with rfl | rfl
    · have hmem := (SchemaSet.refers_iff hitem).1 hrefers
      simpa [Element.targets, Element.targetsOfAttributes] using Or.inr hmem
    · have hmem := (SchemaSet.refers_iff hgroup).1 hrefers
      have hmissing : target ≠ "missing" := by
        rintro rfl
        exact absurd hentry (by decide)
      simp_all [Element.targets, Element.targetsOfList]
  · intro names hclosed target htarget
    have hmention : compiled.Mentions shelf {} "item" "group" :=
      mentions_compile_iff.2 ((SchemaSet.refers_iff hitem).2 (by decide))
    rcases htarget with rfl | rfl
    · exact hclosed.self
    · exact hclosed.mentioned "item" hclosed.self "group" (by decide) hmention

end SchemaSets
