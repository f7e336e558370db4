import SchemaSets.Proofs.Alike
import SchemaSets.Proofs.Required
import SchemaSets.Proofs.Unsigned

/-!
# The order of branches

Branches are tried in the order in which they stand, on one chain, and what comes
after the first that fits is not looked at.  A set can be told from the same set with
branches in another order by what it forces and, where references dangle, by which of
them breaks the walk off.  Where none dangles no walk is broken off, and what is left
of a union is whether some branch fits: nothing that the order could change
(`walkBranches_perm`).

The reordering may take place in any unions at once, at any depth, and all entries
change together; so the induction is along the walk of one set, and says of the other
that it does the same step by step, with the same chain (`walk_reordered`).

## Main results

* `Element.Reordered.targets_perm` — a reordered element refers to the same names.
* `report_eq_of_reordered` — every entry is reported on alike.
-/

namespace SchemaSets

namespace Element

/-- An element is another with the branches of any of its unions in another order. -/
inductive Reordered : Element → Element → Prop
  | literal {text : String} {o : Bool} : Reordered (.literal text o) (.literal text o)
  | simple {kind : SimpleKind} {o : Bool} : Reordered (.simple kind o) (.simple kind o)
  | enumeration {values : List String} {o : Bool} :
      Reordered (.enumeration values o) (.enumeration values o)
  | object {as bs : List (String × Element)} {o : Bool} (names : Keyed.keys as = Keyed.keys bs)
      (each : List.Forall₂ Reordered (as.map Prod.snd) (bs.map Prod.snd)) :
      Reordered (.object as o) (.object bs o)
  | array {e f : Element} {o : Bool} (item : Reordered e f) : Reordered (.array e o) (.array f o)
  | record {e f : Element} {o : Bool} (value : Reordered e f) :
      Reordered (.record e o) (.record f o)
  | union {es fs gs : List Element} {o : Bool} (each : List.Forall₂ Reordered es fs)
      (order : fs.Perm gs) : Reordered (.union es o) (.union gs o)
  | function {es fs : List Element} {r s : Option Element} {o : Bool}
      (args : List.Forall₂ Reordered es fs) (returns : Option.Rel Reordered r s) :
      Reordered (.function es r o) (.function fs s o)
  | lazy {e f : Element} {o : Bool} (child : Reordered e f) : Reordered (.lazy e o) (.lazy f o)
  | reference {target : String} {o : Bool} :
      Reordered (.reference target o) (.reference target o)

/-- A mark is no reference. -/
theorem targets_withOptional (e : Element) (o : Bool) : (e.withOptional o).targets = e.targets := by
  cases e <;> rfl

namespace Reordered

variable {e f : Element}

theorem isOptional_eq (h : e.Reordered f) : f.isOptional = e.isOptional := by
  cases h <;> rfl

theorem withOptional (h : e.Reordered f) (o : Bool) :
    (e.withOptional o).Reordered (f.withOptional o) := by
  cases h with
  | literal => exact .literal
  | simple => exact .simple
  | enumeration => exact .enumeration
  | object names each => exact .object names each
  | array item => exact .array item
  | record value => exact .record value
  | union each order => exact .union each order
  | function args returns => exact .function args returns
  | lazy child => exact .lazy child
  | reference => exact .reference

/-- Elements that refer to the same names one by one do so together. -/
private theorem targetsOfList_perm {es fs : List Element}
    (h : List.Forall₂ (fun e f => e.targets.Perm f.targets) es fs) :
    (targetsOfList es).Perm (targetsOfList fs) := by
  induction h with
  | nil => exact .refl _
  | cons hfirst _ ih => exact hfirst.append ih

/-- A reordered element refers to the same names, in another order. -/
theorem targets_perm (h : e.Reordered f) : e.targets.Perm f.targets := by
  have hlist : ∀ {es fs : List Element},
      (∀ e ∈ es, ∀ {f : Element}, e.Reordered f → e.targets.Perm f.targets) →
      List.Forall₂ Reordered es fs → (targetsOfList es).Perm (targetsOfList fs) := by
    intro es fs ih each
    have hpairs := (List.forall₂_and_left es fs).2 ⟨ih, each⟩
    exact targetsOfList_perm (hpairs.imp fun e f hpair => hpair.1 hpair.2)
  induction e using Element.induction generalizing f with
  | literal | simple | enumeration | reference => cases h; exact .refl _
  | function args returns o => cases h; exact .refl _
  | object attributes o ih =>
      cases h with
      | @object _ others _ _ each =>
          have hvalues : ∀ attributes : List (String × Element),
              targetsOfAttributes attributes = targetsOfList (attributes.map Prod.snd) := by
            intro attributes
            rw [targetsOfAttributes_eq_flatMap, targetsOfList_eq_flatMap, List.flatMap_map]
          rw [targets, targets, hvalues, hvalues]
          refine hlist (fun e he => ?_) each
          obtain ⟨a, ha, rfl⟩ := List.mem_map.1 he
          exact ih a ha
  | array item o ih =>
      cases h with
      | array item =>
          rw [targets, targets]
          exact ih item
  | record value o ih =>
      cases h with
      | record value =>
          rw [targets, targets]
          exact ih value
  | union branches o ih =>
      cases h with
      | @union _ fs gs _ each order =>
          have horder : (targetsOfList fs).Perm (targetsOfList gs) := by
            rw [targetsOfList_eq_flatMap, targetsOfList_eq_flatMap]
            exact order.flatMap_right targets
          exact (hlist ih each).trans horder
  | lazy child o ih =>
      cases h with
      | lazy child =>
          rw [targets, targets]
          exact ih child

/-- Attributes of the same names whose elements are related are related one by one. -/
private theorem forall₂_attributes {R : Element → Element → Prop}
    {as bs : List (String × Element)} (names : Keyed.keys as = Keyed.keys bs)
    (each : List.Forall₂ R (as.map Prod.snd) (bs.map Prod.snd)) :
    List.Forall₂ (fun a b => b.1 = a.1 ∧ R a.2 b.2) as bs := by
  induction as generalizing bs with
  | nil =>
      cases bs with
      | nil => exact .nil
      | cons b bs => cases each
  | cons a as ih =>
      cases bs with
      | nil => cases each
      | cons b bs =>
          rw [Keyed.keys, Keyed.keys, List.map_cons, List.map_cons, List.cons.injEq] at names
          rw [List.map_cons, List.map_cons, List.forall₂_cons] at each
          exact .cons ⟨names.1.symm, each.1⟩ (ih names.2 each.2)

/-- Where a reordered element is done with its slot, so is its counterpart: it has the
same parts reordered, and these refer to nothing that the element does not refer to. -/
theorem paired {policy : UnknownAttributes} {owner : String} {registry through : Handle}
    (h : e.Reordered f) (hsettled : ¬(e.compile policy owner registry).PassesOn) :
    (e.compile policy owner registry).Paired
      (fun v w => ∃ below changed : Element, below.Reordered changed ∧
        below.targets ⊆ e.targets ∧ below.compile policy owner registry = v ∧
          changed.compile policy owner through = w)
      Eq (f.compile policy owner through) := by
  have hmark := isOptional_eq_false_of_settled hsettled
  cases h with
  | literal => cases hmark; exact .leaf trivial
  | @simple kind => cases hmark; cases kind <;> exact .leaf trivial
  | enumeration =>
      cases hmark
      rw [compile, compile, wrap_false]
      split <;> exact .leaf trivial
  | @object as bs _ names each =>
      cases hmark
      rw [compile, compile, wrap_false, wrap_false, compileAttributes_eq_map,
        compileAttributes_eq_map]
      refine .object (List.forall₂_map_left_iff.2 (List.forall₂_map_right_iff.2 ?_)) rfl
      have hwithin : ∀ a ∈ as, a.2.targets ⊆ (Element.object as false).targets :=
        fun a ha target => mem_targets_of_attribute ha
      have hpairs := (List.forall₂_and_left _ _).2 ⟨hwithin, forall₂_attributes names each⟩
      exact hpairs.imp fun a b hpair => ⟨hpair.2.1, a.2, b.2, hpair.2.2, hpair.1, rfl, rfl⟩
  | array item => cases hmark; exact .array ⟨_, _, item, List.Subset.refl _, rfl, rfl⟩
  | record value => cases hmark; exact .record ⟨_, _, value, List.Subset.refl _, rfl, rfl⟩
  | function args returns => cases hmark; cases returns <;> exact .function
  | union | lazy | reference => cases hmark; exact absurd trivial hsettled

end Reordered
end Element

/-! ## Branches in another order -/

/-- Branches whose walks all end are tried with the same outcome in any order. -/
theorem walkBranches_perm {shelf : Shelf} {chain : List String} {slot : Slot}
    {branches others : List Validator} (h : branches.Perm others)
    (hends : ∀ branch ∈ branches, ∃ issues, walk shelf chain branch slot = .ok issues) :
    walkBranches shelf chain others slot = walkBranches shelf chain branches slot := by
  induction h with
  | nil => rfl
  | cons branch _ ih =>
      have hrest := ih fun b hb => hends b (List.mem_cons_of_mem _ hb)
      rw [walkBranches, walkBranches, hrest]
  | swap second first rest =>
      obtain ⟨issues, hissues⟩ := hends first (by simp)
      obtain ⟨more, hmore⟩ := hends second (by simp)
      simp only [walkBranches, hissues, hmore]
      -- both are tried, unless the first to be tried fits
      cases issues <;> cases more <;> rfl
  | @trans _ between _ hfirst _ ihfirst ihsecond =>
      rw [ihsecond fun b hb => hends b (hfirst.mem_iff.2 hb), ihfirst hends]

/-! ## Sets -/

/-- A set is another with the branches of any unions in another order. -/
def SchemaSet.Reordered (left right : SchemaSet) : Prop :=
  List.Forall₂ (fun a b => b.1 = a.1 ∧ a.2.Reordered b.2) left.elements right.elements

namespace SchemaSet.Reordered

variable {left right : SchemaSet}

/-- A name has reordered elements in both sets, or none in either. -/
theorem rel_get? (h : left.Reordered right) (name : String) :
    Option.Rel Element.Reordered (left.get? name) (right.get? name) :=
  Keyed.rel_find? h name

/-- What stands under a name of the set stands reordered in the other. -/
theorem exists_of_get? (h : left.Reordered right) {name : String} {e : Element}
    (he : left.get? name = some e) : ∃ f, right.get? name = some f ∧ e.Reordered f :=
  Keyed.exists_of_find? h he

/-- Both sets have entries under the same names. -/
theorem contains_eq (h : left.Reordered right) (name : String) :
    right.contains name = left.contains name := by
  have hsome : ∀ {first second : Option Element},
      Option.Rel Element.Reordered first second → second.isSome = first.isSome := by
    intro first second hrel
    cases hrel <;> rfl
  exact hsome (h.rel_get? name)

/-- Reordering leaves no reference dangling that was defined. -/
theorem danglingFree (h : left.Reordered right) (hfree : left.DanglingFree) :
    right.DanglingFree := by
  intro entry hentry target htarget
  obtain ⟨source, hsource, -, hreordered⟩ := Keyed.exists_of_mem_right h hentry
  rw [h.contains_eq]
  exact hfree source hsource target (hreordered.targets_perm.mem_iff.2 htarget)

end SchemaSet.Reordered

section Compiled

variable {left right : SchemaSet} {settings : CompilerSettings} {shelf other : Shelf}
variable {registry through : Handle} {owner : String} {chain : List String} {slot : Slot}

/-- Branches are tried alike if each is walked alike, and then in any order. -/
theorem walkBranches_reordered {policy : UnknownAttributes} {es fs gs : List Element}
    (each : List.Forall₂ Element.Reordered es fs) (order : fs.Perm gs)
    (hwalks : ∀ branch ∈ es, ∀ g : Element, branch.Reordered g →
      walk other chain (g.compile policy owner through) slot =
        walk shelf chain (branch.compile policy owner registry) slot)
    (hends : ∀ g ∈ fs, ∃ issues,
      walk other chain (g.compile policy owner through) slot = .ok issues) :
    walkBranches other chain (Element.compileList policy owner through gs) slot =
      walkBranches shelf chain (Element.compileList policy owner registry es) slot := by
  have hpairs := (List.forall₂_and_left _ _).2 ⟨hwalks, each⟩
  have hordered : walkBranches other chain (gs.map (Element.compile policy owner through)) slot =
      walkBranches other chain (fs.map (Element.compile policy owner through)) slot := by
    refine walkBranches_perm (order.map _) fun branch hbranch => ?_
    obtain ⟨g, hg, rfl⟩ := List.mem_map.1 hbranch
    exact hends g hg
  rw [Element.compileList_eq_map, Element.compileList_eq_map, hordered]
  refine eq_of_mapError_id (walkBranches_alike ?_)
  rw [List.forall₂_map_left_iff, List.forall₂_map_right_iff]
  refine hpairs.imp fun branch g hpair => ?_
  rw [hpair.1 g hpair.2]

/-- In a set without dangling references, reordered elements are walked alike. -/
theorem walk_reordered (hfree : left.DanglingFree) (h : left.Reordered right)
    (hleft : Stands shelf registry (left.compile settings registry))
    (hright : Stands other through (right.compile settings through))
    {e f : Element} (hreordered : e.Reordered f)
    (htargets : ∀ target ∈ e.targets, left.contains target = true)
    (owner : String) (chain : List String) (slot : Slot) :
    walk other chain (f.compile settings.unknownAttributes owner through) slot =
      walk shelf chain (e.compile settings.unknownAttributes owner registry) slot := by
  generalize hcompile : e.compile settings.unknownAttributes owner registry = v
  induction chain, v, slot using chain_induction shelf generalizing e f owner with
  | settled chain v slot hsettled ih =>
      subst hcompile
      refine eq_of_mapError_id (walk_alike (hreordered.paired hsettled) ?_)
      rintro part hpart _ ⟨below, changed, hsame, hwithin, hbelow, rfl⟩
      rw [ih part hpart hsame (fun target htarget => htargets target (hwithin htarget)) owner
        hbelow]
  | union chain branches slot ih =>
      obtain ⟨es, rfl, rfl⟩ := Element.origin_of_compile_eq hcompile
      cases hreordered with
      | @union _ fs gs _ each order =>
          have hinside : ∀ branch ∈ es, ∀ target ∈ branch.targets,
              left.contains target = true :=
            fun branch hbranch target htarget =>
              htargets target (Element.mem_targets_of_branch hbranch htarget)
          have hwalks : ∀ branch ∈ es, ∀ g : Element, branch.Reordered g →
              walk other chain (g.compile settings.unknownAttributes owner through) slot =
                walk shelf chain (branch.compile settings.unknownAttributes owner registry) slot :=
            fun branch hbranch g hg => ih _ (Element.mem_compileList.2 ⟨branch, hbranch, rfl⟩) hg
              (hinside branch hbranch) owner rfl
          have hends : ∀ g ∈ fs, ∃ issues,
              walk other chain (g.compile settings.unknownAttributes owner through) slot =
                .ok issues := by
            intro g hg
            obtain ⟨branch, hbranch, hsame⟩ := Keyed.exists_of_mem_right each hg
            refine exists_issues_of_danglingFree (h.danglingFree hfree) hright
              (fun target htarget => ?_) owner chain slot
            rw [h.contains_eq]
            exact hinside branch hbranch target (hsame.targets_perm.mem_iff.2 htarget)
          have hlength : gs.length = es.length := by
            rw [← order.length_eq, each.length_eq]
          rw [Element.compile, Element.wrap_false, walk, walk,
            walkBranches_reordered each order hwalks hends,
            Element.compileList_eq_map, Element.compileList_eq_map, List.length_map,
            List.length_map, hlength]
  | lazy chain label child slot ih =>
      obtain ⟨inner, rfl, rfl, rfl⟩ := Element.origin_of_compile_eq hcompile
      cases hreordered with
      | lazy hchild =>
          rw [Element.compile, Element.wrap_false, walk, walk]
          exact ih hchild htargets owner rfl
  | cycle chain target place registry slot hmet =>
      obtain ⟨rfl, rfl, rfl⟩ := Element.origin_of_compile_eq hcompile
      cases hreordered
      rw [Element.compile, Element.wrap_false, walk_cycle hmet, walk_cycle hmet]
  | broken chain target place registry slot cause hnew hbroken =>
      obtain ⟨rfl, rfl, rfl⟩ := Element.origin_of_compile_eq hcompile
      have hdefined : left.contains target = true := htargets target (List.mem_singleton_self _)
      obtain ⟨source, hsource⟩ := Option.isSome_iff_exists.1 hdefined
      have hnone := (hleft.resolve_eq_error_iff.1 hbroken).1
      rw [SchemaSet.get?_compile_of_eq hsource] at hnone
      cases hnone
  | follow chain target place registry slot entry hnew hfound ih =>
      obtain ⟨rfl, rfl, rfl⟩ := Element.origin_of_compile_eq hcompile
      cases hreordered
      have hentry := hleft.resolve_eq_ok_iff.1 hfound
      obtain ⟨source, hsource, rfl⟩ := SchemaSet.exists_of_get?_compile hentry
      obtain ⟨changed, hchanged, hsame⟩ := h.exists_of_get? hsource
      have hother : other.resolve through target place = .ok (Entry.of target _) :=
        hright.resolve_eq_ok_iff.2 (SchemaSet.get?_compile_of_eq hchanged)
      rw [Element.compile, Element.wrap_false, walk_follow hnew hfound, walk_follow hnew hother]
      exact ih hsame (hfree _ (Keyed.mem_of_find? hsource)) target rfl
  | absent chain inner =>
      obtain ⟨hmark, -⟩ := Element.origin_of_compile_eq hcompile
      rw [Element.compile_eq_wrap, hreordered.isOptional_eq, hmark, Element.wrap_true, walk, walk]
  | present chain inner x ih =>
      obtain ⟨hmark, rfl⟩ := Element.origin_of_compile_eq hcompile
      rw [Element.compile_eq_wrap settings.unknownAttributes owner through,
        hreordered.isOptional_eq, hmark, Element.wrap_true, walk, walk]
      refine ih (hreordered.withOptional false) (fun target htarget => ?_) owner rfl
      rw [Element.targets_withOptional] at htarget
      exact htargets target htarget

/-- In a set without dangling references the order of branches does not matter:
whichever unions are reordered, in whichever entries, every slot has the same report
under every entry, and the same entries may be absent. -/
theorem report_eq_of_reordered (hfree : left.DanglingFree) (h : left.Reordered right)
    (hshelf : shelf.set? registry = some (left.compile settings registry))
    (hother : other.set? through = some (right.compile settings through))
    {name : String} (hname : left.contains name = true) :
    (∀ slot, ∃ report,
      (left.compile settings registry).check shelf name slot = .ok report ∧
      (right.compile settings through).check other name slot = .ok report) ∧
    ∃ absent,
      (left.compile settings registry).mayBeAbsent? shelf name = some absent ∧
      (right.compile settings through).mayBeAbsent? other name = some absent := by
  have hleft := Stands.of_compile hshelf
  have hright := Stands.of_compile hother
  obtain ⟨e, he⟩ := Option.isSome_iff_exists.1 hname
  obtain ⟨f, hf, hreordered⟩ := h.exists_of_get? he
  have hentry : (left.compile settings registry).get? name = some (Entry.of name _) :=
    SchemaSet.get?_compile_of_eq he
  have hchanged : (right.compile settings through).get? name = some (Entry.of name _) :=
    SchemaSet.get?_compile_of_eq hf
  have hreports : ∀ slot, ∃ report,
      (e.compile settings.unknownAttributes name registry).validateSlot shelf slot = .ok report ∧
      (f.compile settings.unknownAttributes name through).validateSlot other slot =
        .ok report := by
    intro slot
    have htargets := hfree _ (Keyed.mem_of_find? he)
    obtain ⟨issues, hissues⟩ :=
      exists_issues_of_danglingFree hfree hleft htargets name [] slot
    refine ⟨⟨issues⟩, validateSlot_eq_ok_iff.2 hissues, validateSlot_eq_ok_iff.2 ?_⟩
    rw [walk_reordered hfree h hleft hright hreordered htargets, hissues]
  constructor
  · intro slot
    obtain ⟨report, hreport, hsame⟩ := hreports slot
    exact ⟨report, (check_eq_ok_iff hentry).2 hreport, (check_eq_ok_iff hchanged).2 hsame⟩
  · -- absence is told by the report on an empty slot
    obtain ⟨report, hreport, hsame⟩ := hreports none
    have habsent := mayBeAbsent_eq_of_acceptsSlot hleft (hleft.inward hentry)
      (acceptsSlot_eq_ok_iff.2 ⟨report, hreport, rfl⟩)
    have habsentToo := mayBeAbsent_eq_of_acceptsSlot hright (hright.inward hchanged)
      (acceptsSlot_eq_ok_iff.2 ⟨report, hsame, rfl⟩)
    refine ⟨report.isValid, ?_, ?_⟩
    · rw [CompiledSet.mayBeAbsent?, hentry, Option.map_some]
      exact congrArg some habsent
    · rw [CompiledSet.mayBeAbsent?, hchanged, Option.map_some]
      exact congrArg some habsentToo

end Compiled

/-- Alternatives that lead to each other in circles, some of them put off. -/
def forks : SchemaSet where
  elements := [("a", .union [.reference "b" false,
      .lazy (.union [.reference "a" true, .simple .number false] false) false] false),
    ("b", .record (.union [.reference "a" false, .literal "x" false, .reference "b" false] true)
      false)]

/-- The same alternatives in another order. -/
def crossedForks : SchemaSet where
  elements := [("a", .union [.lazy (.union [.simple .number false, .reference "a" true] false)
      false, .reference "b" false] false),
    ("b", .record (.union [.literal "x" false, .reference "b" false, .reference "a" false] true)
      false)]

theorem forks_reordered : forks.Reordered crossedForks := by
  have hput : (Element.lazy (.union [.reference "a" true, .simple .number false] false)
      false).Reordered
        (.lazy (.union [.simple .number false, .reference "a" true] false) false) :=
    .lazy (.union (.cons .reference (.cons .simple .nil)) (.swap _ _ _))
  have hfirst : (Element.union [.reference "b" false, .lazy (.union [.reference "a" true,
      .simple .number false] false) false] false).Reordered (.union [.lazy (.union
        [.simple .number false, .reference "a" true] false) false, .reference "b" false] false) :=
    .union (.cons .reference (.cons hput .nil)) (.swap _ _ _)
  have hsecond : (Element.record (.union [.reference "a" false, .literal "x" false,
      .reference "b" false] true) false).Reordered (.record (.union [.literal "x" false,
        .reference "b" false, .reference "a" false] true) false) :=
    .record (.union (.cons .reference (.cons .literal (.cons .reference .nil)))
      ((List.Perm.swap _ _ _).trans (.cons _ (.swap _ _ _))))
  exact .cons ⟨rfl, hfirst⟩ (.cons ⟨rfl, hsecond⟩ .nil)

/-- Forks report the same when crossed. -/
theorem report_eq_of_reordered_forks :
    let compiled := forks.compile {} (.ofSet 0)
    let crossed := crossedForks.compile {} (.ofSet 0)
    (∀ slot, ∃ report,
      compiled.check (({} : Shelf).put 0 compiled) "a" slot = .ok report ∧
      crossed.check (({} : Shelf).put 0 crossed) "a" slot = .ok report) ∧
    ∃ absent, compiled.mayBeAbsent? (({} : Shelf).put 0 compiled) "a" = some absent ∧
      crossed.mayBeAbsent? (({} : Shelf).put 0 crossed) "a" = some absent := by
  intro compiled crossed
  have hfree : forks.DanglingFree := by decide
  exact report_eq_of_reordered hfree forks_reordered rfl rfl (by decide)

end SchemaSets
