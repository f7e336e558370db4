import SchemaSets.Proofs.Deferred.LiveSet
import SchemaSets.Proofs.Equivalence

/-!
# Laziness

A set that is compiled anew answers every operation as one does that was in use, and
what was built in the meantime is told by the operations alone.  So that there is
something to be seen at all, the sets here are live sets: they do build their children
when these are first asked for and keep them.

Only the places of forced nodes distinguish a live set from a new one.  They grow with
every session, and compiling and describing do not add to them
(`laziness_is_unobservable`).
-/

namespace SchemaSets

/-! ## Sets compiled anew -/

/-- Two validators that one element compiles to for two handles. -/
structure Twins (registry through : Handle) (v w : Validator) : Prop where
  bare : v.bare = w.bare
  description : v.describe = w.describe
  inward : ∀ link ∈ v.links, link.registry = registry
  inwardToo : ∀ link ∈ w.links, link.registry = through

/-- An element that is compiled for two handles gives twins. -/
theorem Element.twins_compile (policy : UnknownAttributes) (owner : String)
    (registry through : Handle) (e : Element) :
    Twins registry through (e.compile policy owner registry) (e.compile policy owner through) where
  bare := by rw [bare_compile policy owner registry, bare_compile policy owner through]
  description := by rw [describe_compile, describe_compile]
  inward link hlink := (mem_links_compile.1 hlink).2.2
  inwardToo link hlink := (mem_links_compile.1 hlink).2.2

section Twins

variable {shelf other : Shelf} {registry through : Handle} {left right : CompiledSet}
  {v w : Validator}

/-- Twins report the same where their sets are equal once bare. -/
theorem Twins.validateSlot_eq (htwins : Twins registry through v w)
    (hleft : Stands shelf registry left) (hright : Stands other through right)
    (h : left.bareShelf = right.bareShelf) (slot : Slot) :
    v.validateSlot shelf slot = w.validateSlot other slot := by
  rw [← validateSlot_bare hleft htwins.inward, ← validateSlot_bare hright htwins.inwardToo, h,
    htwins.bare]

/-- Twins may both be absent, or neither. -/
theorem Twins.mayBeAbsent_eq (htwins : Twins registry through v w)
    (hleft : Stands shelf registry left) (hright : Stands other through right)
    (h : left.bareShelf = right.bareShelf) : v.mayBeAbsent shelf = w.mayBeAbsent other := by
  rw [← mayBeAbsent_bare hleft htwins.inward, ← mayBeAbsent_bare hright htwins.inwardToo, h,
    htwins.bare]

/-- Twins have the same schema. -/
theorem Twins.schema_eq (htwins : Twins registry through v w)
    (hleft : Stands shelf registry left) (hright : Stands other through right)
    (h : left.bareShelf = right.bareShelf) (exporter : ExportSettings) :
    v.schema shelf exporter = w.schema other exporter := by
  rw [Validator.schema, Validator.schema, ← schemaMembers_bare hleft _ v htwins.inward,
    ← schemaMembers_bare hright _ w htwins.inwardToo, h, htwins.bare]

end Twins

section Anew

variable {settings : CompilerSettings} {set : SchemaSet} {shelf other : Shelf} {id through : Nat}

/-- Once bare, a shelf does not show for which handle its set was compiled. -/
theorem SchemaSet.bareShelf_compile_eq (settings : CompilerSettings) (registry other : Handle)
    (set : SchemaSet) :
    (set.compile settings registry).bareShelf = (set.compile settings other).bareShelf := by
  rw [CompiledSet.bareShelf, CompiledSet.bareShelf, set.bare_compile_eq]

/-- A set that is compiled a second time has the same documents. -/
theorem exportWith_compile_eq (hsorted : Keyed.Sorted set.elements)
    (hleft : Stands shelf (.ofSet id) (set.compile settings (.ofSet id)))
    (hright : Stands other (.ofSet through) (set.compile settings (.ofSet through)))
    (exporter : ExportSettings) (dependencies : List (String × List String)) :
    (set.compile settings (.ofSet id)).exportWith shelf exporter dependencies =
      (set.compile settings (.ofSet through)).exportWith other exporter dependencies := by
  have hdocument : ∀ e ∈ set.elements,
      (set.compile settings (.ofSet id)).document shelf exporter dependencies
        (.of e.1 (e.2.compile settings.unknownAttributes e.1 (.ofSet id))) =
      (set.compile settings (.ofSet through)).document other exporter dependencies
        (.of e.1 (e.2.compile settings.unknownAttributes e.1 (.ofSet through))) := by
    intro e he
    have hfound : set.get? e.1 = some e.2 := Keyed.find?_of_mem hsorted he
    have htwins := e.2.twins_compile settings.unknownAttributes e.1 (.ofSet id) (.ofSet through)
    rw [← document_bare hleft exporter dependencies (SchemaSet.get?_compile_of_eq hfound),
      ← document_bare hright exporter dependencies (SchemaSet.get?_compile_of_eq hfound),
      set.bareShelf_compile_eq settings (.ofSet id) (.ofSet through),
      set.bare_compile_eq settings (.ofSet id) (.ofSet through), Entry.bare, Entry.bare]
    exact congrArg (fun v => CompiledSet.document _ _ _ _ (Entry.of e.1 v)) htwins.bare
  have hentries : ∀ registry, (set.compile settings registry).entries = set.elements.map fun e =>
      (e.1, Entry.of e.1 (e.2.compile settings.unknownAttributes e.1 registry)) :=
    fun registry => List.map_map
  rw [CompiledSet.exportWith, CompiledSet.exportWith, hentries, hentries, List.map_map,
    List.map_map]
  exact congrArg ExportedSet.mk
    (List.map_congr_left fun e he => congrArg (Prod.mk e.1) (hdocument e he))

/-- What is given alike of twins is given alike of the entries of one name. -/
theorem Operation.atEntry_compile_eq {give giveToo : Located → Answer} (name : String)
    (h : ∀ v w, Twins (.ofSet id) (.ofSet through) v w →
      give (.ofEntry (.ofSet id) name v) = giveToo (.ofEntry (.ofSet through) name w)) :
    answer.atEntry id (set.compile settings (.ofSet id)) name give =
      answer.atEntry through (set.compile settings (.ofSet through)) name giveToo := by
  rw [answer.atEntry, answer.atEntry, CompiledSet.located?, CompiledSet.located?,
    SchemaSet.get?_compile, SchemaSet.get?_compile]
  cases set.get? name with
  | none => rfl
  | some e => exact h _ _ (e.twins_compile ..)

/-- A set that is compiled a second time answers every operation alike. -/
theorem Operation.answer_compile_eq (hsorted : Keyed.Sorted set.elements)
    (hleft : Stands shelf (.ofSet id) (set.compile settings (.ofSet id)))
    (hright : Stands other (.ofSet through) (set.compile settings (.ofSet through)))
    (op : Operation) :
    op.answer shelf id (set.compile settings (.ofSet id)) =
      op.answer other through (set.compile settings (.ofSet through)) := by
  have hshelf := set.bareShelf_compile_eq settings (.ofSet id) (.ofSet through)
  cases op with
  | check name slot =>
      exact atEntry_compile_eq name fun v w htwins =>
        congrArg Answer.report (htwins.validateSlot_eq hleft hright hshelf slot)
  | accepts name slot =>
      refine atEntry_compile_eq name fun v w htwins => congrArg Answer.verdict ?_
      show v.acceptsSlot shelf slot = w.acceptsSlot other slot
      rw [Validator.acceptsSlot, Validator.acceptsSlot,
        htwins.validateSlot_eq hleft hright hshelf slot]
  | mayBeAbsent name =>
      exact atEntry_compile_eq name fun v w htwins =>
        congrArg Answer.absence (htwins.mayBeAbsent_eq hleft hright hshelf)
  | schema exporter name =>
      exact atEntry_compile_eq name fun v w htwins =>
        congrArg Answer.schema (htwins.schema_eq hleft hright hshelf exporter)
  | exportWith exporter dependencies =>
      exact congrArg Answer.documents
        (exportWith_compile_eq hsorted hleft hright exporter dependencies)
  | describe name =>
      exact atEntry_compile_eq name fun v w htwins =>
        congrArg Answer.description htwins.description
  | descriptions =>
      refine congrArg Answer.descriptions ?_
      rw [SchemaSet.describe_compile, SchemaSet.describe_compile]

end Anew

/-! ## Nodes of planted sets -/

/-- The validators right below a node, function signatures included; that of a lazy node
is its child. -/
def Deferred.children : Deferred → List Deferred
  | .any | .literal _ | .boolean | .string | .number | .enumeration _ | .reference _ _ _ => []
  | .object fields _ => fields.map (·.2)
  | .array item => [item]
  | .record value => [value]
  | .union branches => branches
  | .function args returns => args ++ returns.toList
  | .lazy _ source => [source.build]
  | .optional inner => [inner]

/-- What lies right below a node is what lies right below it once everything is built. -/
theorem Deferred.children_full (v : Deferred) : v.full.children = v.children.map full := by
  cases v with
  | object fields closed =>
      simp [full, children, Validator.children, fullFields_eq_map]
  | union branches => simp [full, children, Validator.children, fullList_eq_map]
  | function args returns =>
      cases returns <;> simp [full, children, Validator.children, fullList_eq_map]
  | _ => simp [full, children, Validator.children]

/-- A validator is a node of an entry of a planted set, built or still to be built. -/
def Planted.HasNode (set : Planted) (v : Deferred) : Prop :=
  ∃ name root, set.get? name = some root ∧
    Relation.ReflTransGen (fun node child => child ∈ node.children) root v

section Nodes

variable {settings : CompilerSettings} {registry : Handle} {set : SchemaSet} {v : Deferred}

/-- Nodes of a planted set are nodes of the compiled set once everything is built. -/
theorem SchemaSet.hasNode_full (h : (set.plant settings registry).HasNode v) :
    (set.compile settings registry).HasNode v.full := by
  obtain ⟨name, root, hroot, hpath⟩ := h
  refine ⟨name, .of name root.full, ?_, hpath.lift Deferred.full fun node child hchild => ?_⟩
  · rw [CompiledSet.get?, entries_compile, Keyed.find?_mapValues]
    exact congrArg (Option.map _) hroot
  · show child.full ∈ node.full.children
    rw [Deferred.children_full]
    exact List.mem_map_of_mem hchild

/-- To describe any node of a planted set asks for nothing: all its lazy nodes have
labels, those that come to light when a child is built among them. -/
theorem SchemaSet.outcome_describeThrough_node (h : (set.plant settings registry).HasNode v)
    (place : Place) : (v.describeThrough place).outcome = (v.full.describe, []) := by
  obtain ⟨owner, e, hv⟩ := exists_of_hasNode (hasNode_full h)
  rw [Deferred.outcome_describeThrough _ rfl, hv, Element.builtByDescribe_compile]

end Nodes

/-! ## Sessions -/

namespace LiveSet

variable {settings : CompilerSettings} {set : SchemaSet} {id : Nat} {w : Workspace}

/-- The traversal of an operation on a live set gives the answer of the operation and
asks for what the operation builds. -/
theorem outcome_ask_compile (hsorted : Keyed.Sorted set.elements)
    (h : w.find? id = some (set.compile settings (.ofSet id))) (op : Operation) :
    ((compile settings (.ofSet id) set).planted.ask
        (compile settings (.ofSet id) set).descriptions op).outcome =
      (op.answer w.shelf id (set.compile settings (.ofSet id)),
        op.builds w.shelf id (set.compile settings (.ofSet id))) := by
  have hyields := SchemaSet.yields_plant (show w.shelf.set? (.ofSet id) = _ from h)
  rw [compile_eq]
  exact hyields.outcome_ask rfl (SchemaSet.sorted_plant hsorted) op

/-- A live set gives the answer of the operation. -/
theorem answer_perform_compile (hsorted : Keyed.Sorted set.elements)
    (h : w.find? id = some (set.compile settings (.ofSet id))) (op : Operation) :
    ((compile settings (.ofSet id) set).perform op).1 =
      op.answer w.shelf id (set.compile settings (.ofSet id)) := by
  rw [answer_perform, outcome_ask_compile hsorted h]

/-- A session with a live set forces what the session in a workspace builds. -/
theorem forced_run_compile (hsorted : Keyed.Sorted set.elements)
    (h : w.find? id = some (set.compile settings (.ofSet id))) {ops : List Operation}
    {place : Place} :
    place ∈ (w.run id (set.compile settings (.ofSet id)) ops).2.built ↔
      place ∈ w.built ∨ ((compile settings (.ofSet id) set).run ops).2.Forced place := by
  rw [Workspace.mem_built_run, forced_run]
  simp only [outcome_ask_compile hsorted h, not_forced_compile, false_or]

/-- An operation that builds nothing leaves a live set as it is, whatever came before. -/
theorem perform_eq_of_builds_eq_nil (hsorted : Keyed.Sorted set.elements)
    (h : w.find? id = some (set.compile settings (.ofSet id))) {op : Operation}
    (hbuilds : op.builds w.shelf id (set.compile settings (.ofSet id)) = []) (ops : List Operation) :
    (((compile settings (.ofSet id) set).run ops).2.perform op).2 =
      ((compile settings (.ofSet id) set).run ops).2 := by
  refine perform_eq_of_outcome ?_
  rw [snd_run]
  exact (congrArg Prod.snd (outcome_ask_compile hsorted h op)).trans hbuilds

end LiveSet

/-- A set in use answers as a set does that is compiled anew, and as the workspace does
in which it stands.  The lazy nodes that were forced are those that the workspace has
built; they stay forced, and their cells stay as they are.  Compiling the set forces no
lazy node, and neither does describing an entry, the set or any of its nodes. -/
theorem laziness_is_unobservable {settings : CompilerSettings} {set : SchemaSet}
    (hsorted : Keyed.Sorted set.elements) (w other : Workspace) :
    let live := LiveSet.compile settings (.ofSet w.nextId) set
    let anew := LiveSet.compile settings (.ofSet other.nextId) set
    let session := (w.compile settings set).2.run w.nextId (set.compile settings (.ofSet w.nextId))
    (∀ ops, (live.run ops).1 = ops.map fun op => (anew.perform op).1) ∧
    (∀ ops, (live.run ops).1 = (session ops).1) ∧
    (∀ ops place, place ∈ (session ops).2.built ↔
      place ∈ w.built ∨ (live.run ops).2.Forced place) ∧
    (∀ ops later, (live.run ops).2.memory <:+ (live.run (ops ++ later)).2.memory ∧
      ∀ place, (live.run ops).2.Forced place → (live.run (ops ++ later)).2.Forced place) ∧
    (∀ place, ¬ live.Forced place) ∧
    (∀ ops name, ((live.run ops).2.perform (.describe name)).2 = (live.run ops).2 ∧
      ((live.run ops).2.perform .descriptions).2 = (live.run ops).2) ∧
    ∀ v, live.planted.HasNode v → ∀ place memory,
      (v.describeThrough place).run memory = (v.full.describe, memory) := by
  intro live anew session
  have hfound : (w.compile settings set).2.find? w.nextId =
      some (set.compile settings (.ofSet w.nextId)) := Shelf.set?_put _ _ _
  have hfoundToo : (other.compile settings set).2.find? other.nextId =
      some (set.compile settings (.ofSet other.nextId)) := Shelf.set?_put _ _ _
  refine ⟨fun ops => ?_, fun ops => ?_, fun ops place => ?_, fun ops later => ?_, fun place => ?_,
    fun ops name => ⟨?_, ?_⟩, fun v hv place memory => ?_⟩
  · rw [LiveSet.answers_run]
    refine List.map_congr_left fun op _ => ?_
    rw [LiveSet.answer_perform_compile hsorted hfound,
      LiveSet.answer_perform_compile hsorted hfoundToo]
    exact op.answer_compile_eq hsorted (.of_compile hfound) (.of_compile hfoundToo)
  · rw [LiveSet.answers_run, Workspace.answers_run]
    exact List.map_congr_left fun op _ => LiveSet.answer_perform_compile hsorted hfound op
  · exact LiveSet.forced_run_compile hsorted hfound
  · have hsuffix : (live.run ops).2.memory <:+ (live.run (ops ++ later)).2.memory := by
      rw [LiveSet.run_append]
      exact LiveSet.memory_suffix_run later
    exact ⟨hsuffix, fun place hplace => (hsuffix.map Cell.place).mem hplace⟩
  · exact LiveSet.not_forced_compile
  · exact LiveSet.perform_eq_of_builds_eq_nil hsorted hfound (Operation.builds_describe name) ops
  · exact LiveSet.perform_eq_of_builds_eq_nil hsorted hfound rfl ops
  · have hnode : (set.plant settings (.ofSet w.nextId)).HasNode v := by
      rwa [show live.planted = _ from congrArg LiveSet.planted LiveSet.compile_eq] at hv
    exact Demand.run_eq (SchemaSet.outcome_describeThrough_node hnode place) memory

/-- A tree that puts its branches off. -/
def tree : SchemaSet := ⟨[("Tree", .lazy (.array (.reference "Tree" false) false) false)]⟩

/-- Checking a tree forces its branches for good, and nothing else shows it. -/
theorem laziness_is_unobservable_tree :
    let live := LiveSet.compile {} (.ofSet 0) tree
    let branches : Place := ⟨.entry (.ofSet 0) "Tree", []⟩
    Keyed.Sorted tree.elements ∧ ¬ live.Forced branches ∧
    (∀ slot ops, (live.run (.check "Tree" slot :: ops)).2.Forced branches) ∧
    ∀ slot ops, (live.run (.check "Tree" slot :: ops)).1 =
      (live.perform (.check "Tree" slot)).1 :: (live.run ops).1 := by
  have hsorted : Keyed.Sorted tree.elements := List.pairwise_singleton _ _
  obtain ⟨hanswers, -, hforced, -, hnew, -⟩ := laziness_is_unobservable hsorted {} {}
  refine ⟨hsorted, hnew _, fun slot ops => ?_, fun slot ops => ?_⟩
  · refine ((hforced _ _).1 (Workspace.mem_built_run.2 (.inr ?_))).resolve_left List.not_mem_nil
    refine ⟨_, List.mem_cons_self, ?_⟩
    show _ ∈ builtByWalk _ [] _ (.lazy _ _) slot
    rw [builtByWalk]
    exact List.mem_cons_self
  · rw [hanswers, hanswers, List.map_cons]

end SchemaSets
