import SchemaSets.Proofs.Placed
import SchemaSets.Proofs.Unsigned

/-!
# Signatures are opaque

The arguments and the results of functions are compiled and described, and nothing
else looks at them.  Two sets that differ in them only are the same without
signatures (`SchemaSet.EqUpToSignatures.unsigned_eq`), and that is what reports,
absence, dependencies and documents are told from.  And whatever a compiled set is
asked, no lazy node in a signature is built for it, since every place that is built
lies outside signatures.

## Main results

* `signatures_are_opaque` — sets that differ in signatures only give the same
  answers, and no session with a set changes what is built in its signatures.
-/

namespace SchemaSets

/-- Two elements that differ in nothing but the arguments and results of functions. -/
inductive Element.EqUpToSignatures : Element → Element → Prop
  | literal {text : String} {o : Bool} : EqUpToSignatures (.literal text o) (.literal text o)
  | simple {kind : SimpleKind} {o : Bool} : EqUpToSignatures (.simple kind o) (.simple kind o)
  | enumeration {values : List String} {o : Bool} :
      EqUpToSignatures (.enumeration values o) (.enumeration values o)
  | object {as bs : List (String × Element)} {o : Bool} (names : bs.map Prod.fst = as.map Prod.fst)
      (each : List.Forall₂ EqUpToSignatures (as.map Prod.snd) (bs.map Prod.snd)) :
      EqUpToSignatures (.object as o) (.object bs o)
  | array {e f : Element} {o : Bool} (item : EqUpToSignatures e f) :
      EqUpToSignatures (.array e o) (.array f o)
  | record {e f : Element} {o : Bool} (value : EqUpToSignatures e f) :
      EqUpToSignatures (.record e o) (.record f o)
  | union {es fs : List Element} {o : Bool} (each : List.Forall₂ EqUpToSignatures es fs) :
      EqUpToSignatures (.union es o) (.union fs o)
  | function {args others : List Element} {returns result : Option Element} {o : Bool} :
      EqUpToSignatures (.function args returns o) (.function others result o)
  | lazy {e f : Element} {o : Bool} (child : EqUpToSignatures e f) :
      EqUpToSignatures (.lazy e o) (.lazy f o)
  | reference {target : String} {o : Bool} :
      EqUpToSignatures (.reference target o) (.reference target o)

/-- Two sets whose entries differ in nothing but the arguments and results of
functions. -/
def SchemaSet.EqUpToSignatures (left right : SchemaSet) : Prop :=
  List.Forall₂ (fun a b => b.1 = a.1 ∧ a.2.EqUpToSignatures b.2) left.elements right.elements

namespace Element

/-- Lists whose members are the same without signatures one by one are the same
without signatures. -/
private theorem map_unsigned_eq {mark : Element → Bool} {es fs : List Element}
    (ih : ∀ e ∈ es, ∀ f, e.EqUpToSignatures f → e.unsigned mark = f.unsigned mark)
    (each : List.Forall₂ EqUpToSignatures es fs) :
    es.map (unsigned mark) = fs.map (unsigned mark) := by
  induction each with
  | nil => rfl
  | cons hfirst _ hrest =>
      rw [List.forall_mem_cons] at ih
      rw [List.map_cons, List.map_cons, ih.1 _ hfirst, hrest ih.2]

/-- Elements that differ in signatures only are the same without signatures. -/
theorem EqUpToSignatures.unsigned_eq {e f : Element} (h : e.EqUpToSignatures f) :
    e.unsigned isOptional = f.unsigned isOptional := by
  induction e using Element.induction generalizing f with
  | literal text o | simple kind o | enumeration values o | reference target o => cases h; rfl
  | object attributes o ih =>
      cases h with
      | @object _ others _ names each =>
          have hzip : ∀ attributes : List (String × Element),
              unsignedAttributes isOptional attributes = (attributes.map Prod.fst).zip
                ((attributes.map Prod.snd).map (unsigned isOptional)) := by
            intro attributes
            rw [unsignedAttributes_eq_map, List.map_map, List.zip_map']
            rfl
          have hvalues := map_unsigned_eq (List.forall_mem_map.2 fun a ha f => ih a ha) each
          rw [unsigned, unsigned, hzip, hzip, names, hvalues]
  | array item o ih =>
      cases h with
      | array item => exact congrArg (Element.array · o) (ih item)
  | record value o ih =>
      cases h with
      | record value => exact congrArg (Element.record · o) (ih value)
  | union branches o ih =>
      cases h with
      | union each =>
          rw [unsigned, unsigned, unsignedList_eq_map, unsignedList_eq_map,
            map_unsigned_eq (fun e he f hf => ih e he hf) each]
  | function args returns o _ _ => cases h; rfl
  | lazy child o ih =>
      cases h with
      | lazy child => exact congrArg (Element.lazy · o) (ih child)

end Element

/-- Sets that differ in signatures only are the same without signatures. -/
theorem SchemaSet.EqUpToSignatures.unsigned_eq {left right : SchemaSet}
    (h : left.EqUpToSignatures right) : left.unsigned = right.unsigned := by
  obtain ⟨entries⟩ := left
  obtain ⟨others⟩ := right
  refine congrArg SchemaSet.mk ?_
  rw [Keyed.mapValues, Keyed.mapValues]
  change List.Forall₂ _ entries others at h
  induction h with
  | nil => rfl
  | @cons a b _ _ hfirst _ ih =>
      rw [List.map_cons, List.map_cons, ih, hfirst.1, hfirst.2.unsigned_eq]

section Sets

variable {left right : SchemaSet} {settings : CompilerSettings} {w other : Workspace}
  {id through : Nat}

/-- Sets that differ in nothing but the arguments and results of functions, wherever
these stand and whatever is in them, report the same under every name, errors
included, may be absent under the same names, depend on the same names and lack the
same, and have the same documents.  No session with a compiled set, whatever it asks
and whatever was built before, changes what is built in the signatures of its
functions. -/
theorem signatures_are_opaque (h : left.EqUpToSignatures right)
    (hleft : w.find? id = some (left.compile settings (.ofSet id)))
    (hright : other.find? through = some (right.compile settings (.ofSet through))) :
    (∀ name slot, (left.compile settings (.ofSet id)).check w.shelf name slot =
      (right.compile settings (.ofSet through)).check other.shelf name slot) ∧
    (∀ name, (left.compile settings (.ofSet id)).mayBeAbsent? w.shelf name =
      (right.compile settings (.ofSet through)).mayBeAbsent? other.shelf name) ∧
    (∀ name, left.closure name = right.closure name) ∧ left.unresolved = right.unresolved ∧
    (∀ exporter name,
      ((left.compile settings (.ofSet id)).exportFor w.shelf exporter left).get? name =
      ((right.compile settings (.ofSet through)).exportFor other.shelf exporter right).get? name) ∧
    ∀ ops node, (left.compile settings (.ofSet id)).Holds (.ofSet id) true node →
      (node.place ∈ (w.run id (left.compile settings (.ofSet id)) ops).2.built ↔
        node.place ∈ w.built) := by
  have hunsigned := h.unsigned_eq
  have hbare : (left.compile settings (.ofSet id)).bare =
      (right.compile settings (.ofSet through)).bare := by
    rw [SchemaSet.bare_compile_unsigned, hunsigned, ← SchemaSet.bare_compile_unsigned]
  have hstands : Stands w.shelf (.ofSet id) _ := Stands.of_compile hleft
  have hstandsToo : Stands other.shelf (.ofSet through) _ := Stands.of_compile hright
  refine ⟨fun name slot => check_eq_of_bare_eq hstands hstandsToo hbare name slot,
    fun name => mayBeAbsent?_eq_of_bare_eq hstands hstandsToo hbare name, fun name => ?_, ?_,
    fun exporter name => ?_, fun ops node hnode => ?_⟩
  · rw [← left.closure_unsigned, hunsigned, right.closure_unsigned]
  · rw [← left.unresolved_unsigned, hunsigned, right.unresolved_unsigned]
  · have hdependencies : left.dependencyMap = right.dependencyMap := by
      rw [← left.dependencyMap_unsigned, hunsigned, right.dependencyMap_unsigned]
    rw [CompiledSet.exportFor, CompiledSet.exportFor, hdependencies]
    exact get?_exportWith_eq_of_bare_eq hstands hstandsToo hbare exporter right.dependencyMap name
  · rw [Workspace.mem_built_run]
    refine ⟨fun hbuilt => hbuilt.resolve_right ?_, .inl⟩
    rintro ⟨op, -, hop⟩
    -- one place cannot lie in a signature and outside
    obtain ⟨v, hopen⟩ := isOpen_of_mem_builds hstands hop
    exact Bool.noConfusion (hnode.eq_of_place_eq hopen rfl).1

end Sets

/-- A listener with a callback, and the next listener after it. -/
def listener (args : List Element) (returns : Option Element) : SchemaSet :=
  .ofList [("Listener", .ofAttributes [("next", .lazy (.reference "Listener" true) false),
    ("on", .function args returns false)])]

/-- A callback that puts off an argument of a missing name. -/
def listenerToNothing : SchemaSet :=
  listener [.lazy (.reference "nothing" false) false] (some (.reference "Listener" false))

/-- The argument that is put off makes no difference and is never built. -/
theorem signatures_are_opaque_listener :
    let w := (({} : Workspace).compile {} listenerToNothing).2
    let other := (({} : Workspace).compile {} (listener [] none)).2
    listenerToNothing.EqUpToSignatures (listener [] none) ∧
    listenerToNothing ≠ listener [] none ∧
    (∀ slot, (listenerToNothing.compile {} (.ofSet 0)).check w.shelf "Listener" slot =
      ((listener [] none).compile {} (.ofSet 0)).check other.shelf "Listener" slot) ∧
    ∀ ops, ⟨.entry (.ofSet 0) "Listener", [0, 1]⟩ ∉
      (w.run 0 (listenerToNothing.compile {} (.ofSet 0)) ops).2.built := by
  intro w other
  have hdiffer : listenerToNothing.EqUpToSignatures (listener [] none) := by
    refine .cons ⟨rfl, .object rfl (.cons (.lazy .reference) (.cons .function .nil))⟩ .nil
  have hhidden := signatures_are_opaque hdiffer
    (show w.find? 0 = some (listenerToNothing.compile {} (.ofSet 0)) from rfl)
    (show other.find? 0 = some ((listener [] none).compile {} (.ofSet 0)) from rfl)
  refine ⟨hdiffer, by decide, hhidden.1 "Listener", fun ops hbuilt => ?_⟩
  have hentry := CompiledSet.Holds.entry
    (show (listenerToNothing.compile {} (.ofSet 0)).located? (.ofSet 0) "Listener" = some _ from rfl)
  have hargument := (hentry.child 1 rfl).child 0 rfl
  exact List.not_mem_nil ((hhidden.2.2.2.2.2 ops _ hargument).1 hbuilt)

end SchemaSets
