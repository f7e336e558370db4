import SchemaSets.Proofs.Locality

/-!
# Errors name references that dangle

A report fails only where a reference cannot be followed.  Which references are
tried depends on the value, and a lazy node may bring up one that nobody had seen
before; the error says which one it was and in which entry it stands.  What the
graph of dependencies says of the same set looks at no value.

The two never contradict each other.  A walk that starts at an entry meets only
references that stand in the entry or in one that it leads to, and it knows where
each of them stands: the place is written into the reference when it is compiled,
and following other references does not change it (`StandsInReach`).  So whatever an
error blames is an arrow of the graph that ends at a missing name, and is in reach
of the entry (`error_names_dangling`).  Where no missing name is in reach every slot
has a report.
-/

namespace SchemaSets

namespace SchemaSet

variable {set : SchemaSet}

/-- A missing name is one that some entry depends on and that no entry has. -/
theorem mem_unresolved_iff {target : String} :
    target ∈ set.unresolved ↔
      (∃ source, set.Depends source target) ∧ set.get? target = none := by
  have hmissing : (!set.contains target) = true ↔ set.get? target = none := by
    simp [SchemaSet.contains, Keyed.contains, SchemaSet.get?]
  rw [unresolved, Keyed.mem_nameSet, List.mem_filter, hmissing, List.mem_flatMap]
  refine and_congr_left fun _ => ?_
  constructor
  · intro h
    obtain ⟨source, -, hdepends⟩ := h
    exact ⟨source, hdepends⟩
  · intro h
    obtain ⟨source, hdepends⟩ := h
    obtain ⟨⟨e, he, -⟩, -⟩ := depends_iff.1 hdepends
    exact ⟨source, Keyed.mem_keys_of_find? he, hdepends⟩

/-- The names of an ordered set are listed in order, each once. -/
theorem Ordered.names (h : set.Ordered) : set.names.Pairwise (· < ·) :=
  List.pairwise_map.2 h.entries

/-- A link stands in an entry in reach of a name, and names something that the entry
depends on. -/
structure StandsInReach (set : SchemaSet) (registry : Handle) (name : String) (link : Link) :
    Prop where
  through : link.registry = registry
  place : set.InReach name link.owner
  depends : set.Depends link.owner link.target

end SchemaSet

section Compiled

variable {set : SchemaSet} {settings : CompilerSettings} {shelf : Shelf} {registry : Handle}
variable {name : String}

/-- The links of an entry in reach stand in reach. -/
theorem standsInReach_of_mem_links
    (hreserved : ∀ entry ∈ set.elements, reservedName ∉ entry.2.targets) {source : String}
    {e : Element} (hsource : set.InReach name source) (he : set.get? source = some e)
    {link : Link}
    (hlink : link ∈ (e.compile settings.unknownAttributes source registry).links) :
    set.StandsInReach registry name link := by
  obtain ⟨htarget, rfl, hregistry⟩ := Element.mem_links_compile.1 hlink
  have hrefers : set.Refers link.owner link.target := ⟨e, he, htarget⟩
  refine ⟨hregistry, hsource, ?_⟩
  rwa [SchemaSet.depends_eq_refers hreserved]

/-- What a link in reach names is in reach. -/
theorem SchemaSet.StandsInReach.target_mem_closure {link : Link}
    (h : set.StandsInReach registry name link) : link.target ∈ set.closure name := by
  rw [mem_closure_iff]
  rcases h.place with hself | hbehind
  · exact .single (hself ▸ h.depends)
  · exact .tail (mem_closure_iff.1 hbehind) h.depends

/-- A walk that fails was broken off at a link that stands in reach of the entry it
started from, and whose name no entry has. -/
theorem exists_standsInReach_of_walk_eq_error
    (hset : Stands shelf registry (set.compile settings registry))
    (hreserved : ∀ entry ∈ set.elements, reservedName ∉ entry.2.targets) {e : Element}
    (he : set.get? name = some e) {slot : Slot} {cause : ReferenceError}
    (hwalk : walk shelf [] (e.compile settings.unknownAttributes name registry) slot =
      .error cause) :
    ∃ link, set.StandsInReach registry name link ∧ set.get? link.target = none ∧
      cause = .unresolved link.target link.owner set.names := by
  have honward : ∀ link entry, set.StandsInReach registry name link →
      shelf.follow link = .ok entry →
        ∀ next ∈ entry.validator.links, set.StandsInReach registry name next := by
    intro link entry hlink hfollow next hnext
    have hthrough := hlink.through
    subst hthrough
    obtain ⟨found, hfound, rfl⟩ :=
      SchemaSet.exists_of_get?_compile (hset.resolve_eq_ok_iff.1 hfollow)
    have hbehind : set.InReach name link.target := .inr hlink.target_mem_closure
    exact standsInReach_of_mem_links hreserved hbehind hfound hnext
  have hstart : ∀ link ∈ (e.compile settings.unknownAttributes name registry).links,
      set.StandsInReach registry name link :=
    fun link hlink => standsInReach_of_mem_links hreserved (.inl rfl) he hlink
  obtain ⟨link, hlink, hfollow⟩ := exists_link_of_walk_eq_error honward hstart hwalk
  have hthrough := hlink.through
  subst hthrough
  obtain ⟨hnone, hcause⟩ := hset.resolve_eq_error_iff.1 hfollow
  rw [SchemaSet.names_compile] at hcause
  rw [SchemaSet.get?_compile, Option.map_eq_none_iff] at hnone
  exact ⟨link, hlink, hnone, hcause⟩

/-- The report on an entry fails where its walk does. -/
theorem check_eq_error_iff {compiled : CompiledSet} {entry : Entry}
    (hentry : compiled.get? name = some entry) {slot : Slot} {err : SchemaError} :
    compiled.check shelf name slot = .error err ↔
      ∃ cause, walk shelf [] entry.validator slot = .error cause ∧ err = .reference cause := by
  rw [check_of_get? hentry, Validator.validateSlot]
  cases walk shelf [] entry.validator slot with
  | ok issues => simp [Except.mapError, bind, Except.bind]
  | error cause => simp [Except.mapError, bind, Except.bind, eq_comm]

/-- In a set that nowhere refers to the reserved name, an error of a report on an
entry says that a name is missing which the graph of dependencies lists as missing
and as in reach of the entry, that it is missed by the entry or by one in reach that
does depend on it, and which names there are, in order.  So an entry with no missing
name in reach has a report on every slot. -/
theorem error_names_dangling
    (hshelf : shelf.set? registry = some (set.compile settings registry))
    (hreserved : ∀ entry ∈ set.elements, reservedName ∉ entry.2.targets)
    (hname : set.contains name = true) :
    (∀ slot err, (set.compile settings registry).check shelf name slot = .error err →
      ∃ target owner known, err = .reference (.unresolved target owner known) ∧
        target ∈ set.unresolved ∧ target ∈ set.closure name ∧
        (owner = name ∨ owner ∈ set.closure name) ∧
        (∃ e, set.get? owner = some e ∧ target ∈ e.dependencies) ∧
        (∀ other, other ∈ known ↔ set.contains other = true) ∧
        (set.Ordered → known.Pairwise (· < ·))) ∧
    ((∀ target ∈ set.closure name, target ∉ set.unresolved) →
      ∀ slot, ∃ report, (set.compile settings registry).check shelf name slot = .ok report) := by
  have hset := Stands.of_compile hshelf
  obtain ⟨e, he⟩ := Option.isSome_iff_exists.1 hname
  have hentry : (set.compile settings registry).get? name = some (Entry.of name _) :=
    SchemaSet.get?_compile_of_eq he
  have hblame : ∀ slot err,
      (set.compile settings registry).check shelf name slot = .error err →
        ∃ link : Link, set.StandsInReach registry name link ∧ link.target ∈ set.unresolved ∧
          err = .reference (.unresolved link.target link.owner set.names) := by
    intro slot err herr
    obtain ⟨cause, hwalk, rfl⟩ := (check_eq_error_iff hentry).1 herr
    obtain ⟨link, hlink, hnone, rfl⟩ :=
      exists_standsInReach_of_walk_eq_error hset hreserved he hwalk
    have hmissing : link.target ∈ set.unresolved :=
      SchemaSet.mem_unresolved_iff.2 ⟨⟨link.owner, hlink.depends⟩, hnone⟩
    exact ⟨link, hlink, hmissing, rfl⟩
  constructor
  · intro slot err herr
    obtain ⟨link, hlink, hmissing, rfl⟩ := hblame slot err herr
    obtain ⟨⟨source, hsource, -⟩, -⟩ := SchemaSet.depends_iff.1 hlink.depends
    have hdepends : link.target ∈ source.dependencies := by
      have hsuccessor : link.target ∈ set.successors link.owner := hlink.depends
      rwa [SchemaSet.successors, hsource] at hsuccessor
    refine ⟨link.target, link.owner, set.names, rfl, hmissing, hlink.target_mem_closure,
      hlink.place, ⟨source, hsource, hdepends⟩, ?_, SchemaSet.Ordered.names⟩
    intro other
    exact Keyed.contains_iff.symm
  · intro hdefined slot
    cases hreport : (set.compile settings registry).check shelf name slot with
    | ok report => exact ⟨report, rfl⟩
    | error err =>
        obtain ⟨link, hlink, hmissing, -⟩ := hblame slot err hreport
        exact absurd hmissing (hdefined link.target hlink.target_mem_closure)

end Compiled

/-- A camp has a guide, who is known by name or by the maps carried; there is no map, and
no flag for the signal. -/
def expedition : SchemaSet where
  elements := [("camp", .lazy (.reference "guide" true) false),
    ("guide", .union [.simple .string false, .array (.reference "map" false) false] false),
    ("signal", .function [.reference "flag" false] none false)]

/-- A guide of a camp who is not known by name is asked for maps, and it is the entry of
the guide that misses them; a signal is always reported on. -/
theorem error_names_dangling_expedition :
    let compiled := expedition.compile {} (.ofSet 0)
    let shelf := ({} : Shelf).put 0 compiled
    (∃ err, compiled.check shelf "camp" (some (.array [.null])) = .error err ∧
      ∃ target owner known, err = .reference (.unresolved target owner known) ∧
        target ∈ expedition.unresolved ∧ target ∈ expedition.closure "camp" ∧
        (owner = "camp" ∨ owner ∈ expedition.closure "camp") ∧
        (∃ e, expedition.get? owner = some e ∧ target ∈ e.dependencies) ∧
        (∀ other, other ∈ known ↔ expedition.contains other = true) ∧
        known.Pairwise (· < ·)) ∧
    ∀ slot, ∃ report, compiled.check shelf "signal" slot = .ok report := by
  intro compiled shelf
  have hshelf : shelf.set? (.ofSet 0) = some (expedition.compile {} (.ofSet 0)) :=
    Shelf.set?_put _ _ _
  have hreserved : ∀ entry ∈ expedition.elements, reservedName ∉ entry.2.targets := by decide
  have hcamp : expedition.contains "camp" = true := by decide
  have hsignal : expedition.contains "signal" = true := by decide
  have hcheck : compiled.check shelf "camp" (some (.array [.null])) =
      .error (.reference (.unresolved "map" "guide" ["camp", "guide", "signal"])) := by cbv
  constructor
  · obtain ⟨hblame, -⟩ := error_names_dangling hshelf hreserved hcamp
    obtain ⟨target, owner, known, hfacts⟩ := hblame _ _ hcheck
    obtain ⟨herr, hmissing, hreach, hplace, hdepends, hknown, horder⟩ := hfacts
    exact ⟨_, hcheck, target, owner, known, herr, hmissing, hreach, hplace, hdepends, hknown,
      horder (by decide)⟩
  · obtain ⟨-, hreports⟩ := error_names_dangling hshelf hreserved hsignal
    have hclosure : expedition.closure "signal" = [] := by cbv
    apply hreports
    rw [hclosure]
    exact List.forall_mem_nil _

end SchemaSets
