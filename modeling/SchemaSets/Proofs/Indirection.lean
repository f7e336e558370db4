import Mathlib.Data.List.Permutation
import SchemaSets.Proofs.Alike
import SchemaSets.Proofs.Required
import SchemaSets.Proofs.Unsigned

/-!
# What a reference adds

A walk that comes to an entry by a reference has the name of the entry on its chain.
A walk that starts at the entry has not, and goes once more round a cycle through it
before it is cut.  What is cut is an issue and not a fit, so a longer chain can only
take fits away; and if an entry is rejected with its own name on the chain, then all
that lies behind the name was rejected, and without the name there is nothing to be
found either (`Rejects.uncut`).  A reference therefore rejects what its target rejects.

It is otherwise with walks that are broken off.  On the second way round a branch may
be found to fit, so that a reference that cannot be followed is not tried any more; or
such a reference may be met there itself (`reference_verdict_detour`).  This takes a
cycle on which the value is not gone down, and a reference that dangles.  Without
either of the two a reference and its target cannot be told apart
(`reference_verdict`).

Along a chain the walk keeps the slot, so what counts is the part of `chain_induction` in
which it is handed on: a node that is done with the slot does not look at the chain.

## Main results

* `Rejects.mono`, `Rejects.uncut` — names on the chain and rejection.
* `walk_eq_of_leadsOn` — names that are never met may stand on the chain or not.
* `reference_verdict` — how far a reference behaves as its target.
-/

namespace SchemaSets

open Relation

/-! ## Rejection -/

/-- The walk of a slot comes to its end and finds an issue. -/
def Rejects (shelf : Shelf) (chain : List String) (v : Validator) (slot : Slot) : Prop :=
  ∃ issues, walk shelf chain v slot = .ok issues ∧ issues ≠ []

section Rejection

variable {shelf : Shelf} {registry : Handle} {set : CompiledSet} {chain : List String}
variable {v : Validator} {slot : Slot}

/-- No branch was found to fit exactly if each was tried and rejects. -/
theorem walkBranches_eq_false_iff {branches : List Validator} :
    walkBranches shelf chain branches slot = .ok false ↔
      ∀ branch ∈ branches, Rejects shelf chain branch slot := by
  induction branches with
  | nil => simp [walkBranches]
  | cons branch rest ih =>
      rw [walkBranches, bind_eq_ok_iff, List.forall_mem_cons, ← ih]
      constructor
      · rintro ⟨issues, hissues, hrest⟩
        cases issues with
        | nil => cases hrest
        | cons issue more => exact ⟨⟨_, hissues, List.cons_ne_nil _ _⟩, hrest⟩
      · rintro ⟨⟨issues, hissues, hsome⟩, hrest⟩
        refine ⟨issues, hissues, ?_⟩
        rw [if_neg (by simpa using hsome), hrest]

/-- A union rejects what all its branches reject. -/
theorem rejects_union_iff {branches : List Validator} :
    Rejects shelf chain (.union branches) slot ↔
      ∀ branch ∈ branches, Rejects shelf chain branch slot := by
  rw [← walkBranches_eq_false_iff, Rejects, walk]
  constructor
  · rintro ⟨issues, hissues, hsome⟩
    obtain ⟨fits, hfits, hchecked⟩ := bind_eq_ok_iff.1 hissues
    cases fits with
    | true => cases hchecked; exact absurd rfl hsome
    | false => exact hfits
  · intro hfits
    rw [hfits]
    exact ⟨_, rfl, List.cons_ne_nil _ _⟩

/-- A lazy node rejects what its child rejects. -/
theorem rejects_lazy_iff {label : Option String} {child : Validator} :
    Rejects shelf chain (.lazy label child) slot ↔ Rejects shelf chain child slot := by
  rw [Rejects, walk, Rejects]

/-- An optional validator does not reject absence. -/
theorem not_rejects_absent {inner : Validator} : ¬Rejects shelf chain (.optional inner) none := by
  rintro ⟨issues, hissues, hsome⟩
  rw [walk] at hissues
  cases hissues
  exact hsome rfl

/-- An optional validator rejects a value that is rejected without the mark. -/
theorem rejects_present_iff {inner : Validator} {x : Value} :
    Rejects shelf chain (.optional inner) (some x) ↔ Rejects shelf chain inner (some x) := by
  rw [Rejects, walk, Rejects]

/-- A reference rejects if it closes a cycle, or if what it leads to rejects. -/
theorem rejects_reference_iff (hset : Stands shelf registry set) {target owner : String} :
    Rejects shelf chain (.reference target owner registry) slot ↔
      target ∈ chain ∨ ∃ entry, set.get? target = some entry ∧
        Rejects shelf (target :: chain) entry.validator slot := by
  by_cases hmet : target ∈ chain
  · rw [Rejects, walk_cycle hmet]
    simp [hmet]
  · cases hresolve : shelf.resolve registry target owner with
    | error cause =>
        have hnone := (hset.resolve_eq_error_iff.1 hresolve).1
        rw [Rejects, walk_broken hmet hresolve]
        simp [hmet, hnone]
    | ok entry =>
        have hfound := hset.resolve_eq_ok_iff.1 hresolve
        rw [Rejects, walk_follow hmet hresolve]
        simp [hmet, hfound, Rejects]

/-- More names on the chain leave what is rejected rejected. -/
theorem Rejects.mono (hset : Stands shelf registry set)
    (hinward : ∀ link ∈ v.links, link.registry = registry) (h : Rejects shelf chain v slot)
    {more : List String} (hsub : chain ⊆ more) : Rejects shelf more v slot := by
  induction chain, v, slot using chain_induction shelf generalizing more with
  | settled chain v slot hsettled => rwa [Rejects, walk_settled shelf hsettled more chain]
  | union chain branches slot ih =>
      simp only [Validator.links, Validator.mem_linksOfList] at hinward
      rw [rejects_union_iff] at h ⊢
      intro branch hbranch
      exact ih branch hbranch (fun link hlink => hinward link ⟨branch, hbranch, hlink⟩)
        (h branch hbranch) hsub
  | lazy chain label child slot ih =>
      exact rejects_lazy_iff.2 (ih hinward (rejects_lazy_iff.1 h) hsub)
  | cycle chain target owner through slot hmet =>
      have hthrough : through = registry := hinward _ (List.mem_singleton_self _)
      subst hthrough
      exact (rejects_reference_iff hset).2 (.inl (hsub hmet))
  | broken chain target owner through slot cause hnew hbroken =>
      obtain ⟨issues, hissues, -⟩ := h
      rw [walk_broken hnew hbroken] at hissues
      cases hissues
  | follow chain target owner through slot entry hnew hfollow ih =>
      have hthrough : through = registry := hinward _ (List.mem_singleton_self _)
      subst hthrough
      have hfound := hset.resolve_eq_ok_iff.1 hfollow
      rw [Rejects, walk_follow hnew hfollow] at h
      have hentry := ih (hset.inward hfound) h (List.cons_subset_cons target hsub)
      exact (rejects_reference_iff hset).2 (.inr ⟨entry, hfound, hentry⟩)
  | absent chain inner => exact absurd h not_rejects_absent
  | present chain inner x ih =>
      exact rejects_present_iff.2 (ih hinward (rejects_present_iff.1 h) hsub)

/-- A name may be taken off the chain if its entry is rejected with the name on it. -/
theorem Rejects.uncut (hset : Stands shelf registry set)
    (hinward : ∀ link ∈ v.links, link.registry = registry) {name : String} {entry : Entry}
    (hentry : set.get? name = some entry)
    (hself : Rejects shelf (name :: chain) entry.validator slot)
    (h : Rejects shelf (name :: chain) v slot) : Rejects shelf chain v slot := by
  induction chain, v, slot using chain_induction shelf with
  | settled chain v slot hsettled =>
      rwa [Rejects, walk_settled shelf hsettled chain (name :: chain)]
  | union chain branches slot ih =>
      simp only [Validator.links, Validator.mem_linksOfList] at hinward
      rw [rejects_union_iff] at h ⊢
      intro branch hbranch
      exact ih branch hbranch (fun link hlink => hinward link ⟨branch, hbranch, hlink⟩) hself
        (h branch hbranch)
  | lazy chain label child slot ih =>
      exact rejects_lazy_iff.2 (ih hinward hself (rejects_lazy_iff.1 h))
  | cycle chain target owner through slot hmet =>
      have hthrough : through = registry := hinward _ (List.mem_singleton_self _)
      subst hthrough
      exact (rejects_reference_iff hset).2 (.inl hmet)
  | broken chain target owner through slot cause hnew hbroken =>
      have hthrough : through = registry := hinward _ (List.mem_singleton_self _)
      subst hthrough
      have hnone := (hset.resolve_eq_error_iff.1 hbroken).1
      rcases (rejects_reference_iff hset).1 h with hmet | ⟨found, hfound, -⟩
      · rcases List.mem_cons.1 hmet with rfl | hmet
        · rw [hentry] at hnone
          cases hnone
        · exact absurd hmet hnew
      · rw [hfound] at hnone
        cases hnone
  | follow chain target owner through slot found hnew hfollow ih =>
      have hthrough : through = registry := hinward _ (List.mem_singleton_self _)
      subst hthrough
      have hfound := hset.resolve_eq_ok_iff.1 hfollow
      refine (rejects_reference_iff hset).2 (.inr ⟨found, hfound, ?_⟩)
      by_cases hname : target = name
      · -- the name itself is followed here, and its entry is known to be rejected
        subst hname
        rw [hentry, Option.some.injEq] at hfound
        exact hfound ▸ hself
      · rcases (rejects_reference_iff hset).1 h with hmet | ⟨other, hother, hbehind⟩
        · rcases List.mem_cons.1 hmet with heq | hmet
          · exact absurd heq hname
          · exact absurd hmet hnew
        · rw [hfound, Option.some.injEq] at hother
          subst hother
          have hswap : target :: name :: chain ⊆ name :: target :: chain :=
            (List.Perm.swap name target chain).subset
          have hlonger : name :: chain ⊆ name :: target :: chain :=
            List.cons_subset_cons name (List.subset_cons_self target chain)
          exact ih (hset.inward hfound) (hself.mono hset (hset.inward hentry) hlonger)
            (hbehind.mono hset (hset.inward hfound) hswap)
  | absent chain inner => exact absurd h not_rejects_absent
  | present chain inner x ih =>
      exact rejects_present_iff.2 (ih hinward hself (rejects_present_iff.1 h))

/-- A reference rejects what the entry that it names rejects. -/
theorem rejects_reference_iff_entry (hset : Stands shelf registry set) {target owner : String}
    {entry : Entry} (hentry : set.get? target = some entry) :
    Rejects shelf [] (.reference target owner registry) slot ↔
      Rejects shelf [] entry.validator slot := by
  have hinward := hset.inward hentry
  rw [rejects_reference_iff hset]
  constructor
  · rintro (hmet | ⟨found, hfound, hrejects⟩)
    · cases hmet
    · rw [hentry, Option.some.injEq] at hfound
      subst hfound
      exact hrejects.uncut hset hinward hentry hrejects
  · intro hrejects
    exact .inr ⟨entry, hentry, hrejects.mono hset hinward (List.nil_subset _)⟩

end Rejection

/-! ## Names met on a chain -/

namespace Element

mutual
/-- The names that an element refers to for the slot itself, and not for a value inside
it. -/
def openTargets : Element → List String
  | .union branches _ => openTargetsOfList branches
  | .lazy child _ => openTargets child
  | .reference target _ => [target]
  | _ => []
/-- The names that some elements refer to for the slot itself. -/
def openTargetsOfList : List Element → List String
  | [] => []
  | e :: rest => openTargets e ++ openTargetsOfList rest
end

theorem mem_openTargetsOfList {es : List Element} {target : String} :
    target ∈ openTargetsOfList es ↔ ∃ e ∈ es, target ∈ e.openTargets := by
  induction es with
  | nil => simp [openTargetsOfList]
  | cons e es ih => simp [openTargetsOfList, ih]

theorem openTargets_withOptional (e : Element) (o : Bool) :
    (e.withOptional o).openTargets = e.openTargets := by
  cases e <;> rfl

end Element

/-- The entry of a name refers to another name for the slot itself. -/
def SchemaSet.LeadsOn (set : SchemaSet) (name other : String) : Prop :=
  ∃ e, set.get? name = some e ∧ other ∈ e.openTargets

section Reports

variable {set : SchemaSet} {settings : CompilerSettings} {shelf : Shelf} {registry : Handle}

/-- Names that a walk does not meet along its chain may stand on it or not. -/
theorem walk_eq_of_leadsOn (hset : Stands shelf registry (set.compile settings registry))
    {e : Element} {chain other : List String}
    (h : ∀ target ∈ e.openTargets, ∀ name, ReflTransGen set.LeadsOn target name →
      (name ∈ chain ↔ name ∈ other)) (owner : String) (slot : Slot) :
    walk shelf chain (e.compile settings.unknownAttributes owner registry) slot =
      walk shelf other (e.compile settings.unknownAttributes owner registry) slot := by
  generalize hcompile : e.compile settings.unknownAttributes owner registry = v
  induction chain, v, slot using chain_induction shelf generalizing e owner other with
  | settled chain v slot hsettled => exact walk_settled shelf hsettled chain other slot
  | union chain branches slot ih =>
      obtain ⟨es, rfl, rfl⟩ := Element.origin_of_compile_eq hcompile
      have hbranches : walkBranches shelf chain (Element.compileList settings.unknownAttributes
          owner registry es) slot = walkBranches shelf other (Element.compileList
            settings.unknownAttributes owner registry es) slot := by
        refine eq_of_mapError_id (walkBranches_alike (List.forall₂_same.2 fun branch hmem => ?_))
        obtain ⟨e, he, rfl⟩ := Element.mem_compileList.1 hmem
        have hinside : ∀ target ∈ e.openTargets, ∀ name, ReflTransGen set.LeadsOn target name →
            (name ∈ chain ↔ name ∈ other) :=
          fun target htarget => h target (Element.mem_openTargetsOfList.2 ⟨e, he, htarget⟩)
        rw [ih _ hmem hinside owner rfl]
      rw [walk, walk, hbranches]
  | lazy chain label child slot ih =>
      obtain ⟨inner, rfl, -, rfl⟩ := Element.origin_of_compile_eq hcompile
      rw [walk, walk]
      exact ih (e := inner) h owner rfl
  | cycle chain target place through slot hmet =>
      obtain ⟨rfl, rfl, rfl⟩ := Element.origin_of_compile_eq hcompile
      have hmetToo := (h target (List.mem_singleton_self _) target .refl).1 hmet
      rw [walk_cycle hmet, walk_cycle hmetToo]
  | broken chain target place through slot cause hnew hbroken =>
      obtain ⟨rfl, rfl, rfl⟩ := Element.origin_of_compile_eq hcompile
      have hnewToo := mt (h target (List.mem_singleton_self _) target .refl).2 hnew
      rw [walk_broken hnew hbroken, walk_broken hnewToo hbroken]
  | follow chain target place through slot entry hnew hfollow ih =>
      obtain ⟨rfl, rfl, rfl⟩ := Element.origin_of_compile_eq hcompile
      have hnewToo := mt (h target (List.mem_singleton_self _) target .refl).2 hnew
      obtain ⟨found, hfound, rfl⟩ :=
        SchemaSet.exists_of_get?_compile (hset.resolve_eq_ok_iff.1 hfollow)
      rw [walk_follow hnew hfollow, walk_follow hnewToo hfollow]
      refine ih (fun next hnext name hpath => ?_) target rfl
      have hleads : set.LeadsOn target next := ⟨found, hfound, hnext⟩
      have hsame := h target (List.mem_singleton_self _) name (.head hleads hpath)
      rw [List.mem_cons, List.mem_cons, hsame]
  | absent chain inner => rw [walk, walk]
  | present chain inner x ih =>
      obtain ⟨-, rfl⟩ := Element.origin_of_compile_eq hcompile
      rw [walk, walk]
      refine ih (fun target htarget => h target ?_) owner rfl
      rwa [Element.openTargets_withOptional] at htarget

/-- The verdict on a slot under an entry; there is none if no report can be made. -/
def CompiledSet.verdict? (shelf : Shelf) (set : CompiledSet) (name : String) (slot : Slot) :
    Option Bool :=
  (set.check shelf name slot).toOption.map Report.isValid

/-- The verdict is that on what the walk of the entry finds. -/
theorem verdict?_eq_walk {compiled : CompiledSet} {name : String} {entry : Entry}
    (hentry : compiled.get? name = some entry) (slot : Slot) :
    compiled.verdict? shelf name slot =
      (walk shelf [] entry.validator slot).toOption.map List.isEmpty := by
  rw [CompiledSet.verdict?, check_of_get? hentry, Validator.validateSlot]
  cases walk shelf [] entry.validator slot <;> rfl

/-- The verdict is negative exactly if the entry rejects the slot. -/
theorem verdict?_eq_false_iff {compiled : CompiledSet} {name : String} {entry : Entry}
    (hentry : compiled.get? name = some entry) {slot : Slot} :
    compiled.verdict? shelf name slot = some false ↔
      Rejects shelf [] entry.validator slot := by
  rw [verdict?_eq_walk hentry, Rejects]
  cases walk shelf [] entry.validator slot with
  | error cause => simp [Except.toOption]
  | ok issues => simp [Except.toOption]

/-- There is no verdict on a name that no entry has. -/
theorem verdict?_eq_none {compiled : CompiledSet} {name : String}
    (hnone : compiled.get? name = none) (slot : Slot) :
    compiled.verdict? shelf name slot = none := by
  rw [CompiledSet.verdict?, CompiledSet.check, CompiledSet.entry, hnone]
  rfl

/-- Where everything that an entry refers to is defined there is a verdict. -/
theorem exists_verdict (hset : Stands shelf registry (set.compile settings registry))
    {name : String} {e : Element} (he : set.get? name = some e)
    (hdefined : ∀ target ∈ e.targets, set.Defined target) (slot : Slot) :
    ∃ b, (set.compile settings registry).verdict? shelf name slot = some b := by
  have hentry : (set.compile settings registry).get? name = some (Entry.of name _) :=
    SchemaSet.get?_compile_of_eq he
  have hlinks := hset.linksWithin hentry fun link hlink =>
    hdefined _ (Element.mem_links_compile.1 hlink).1
  obtain ⟨issues, hissues⟩ :=
    exists_issues hset (fun _ => SchemaSet.exists_entry_of_defined) hlinks [] slot
  rw [verdict?_eq_walk hentry, hissues]
  exact ⟨issues.isEmpty, rfl⟩

/-- A positive verdict is on a slot that the element of the entry describes. -/
theorem exists_of_verdict?_eq_true
    (hshelf : shelf.set? registry = some (set.compile settings registry)) {name : String}
    {slot : Slot} (h : (set.compile settings registry).verdict? shelf name slot = some true) :
    ∃ e, set.get? name = some e ∧ set.Describes settings.unknownAttributes e slot := by
  have hset := Stands.of_compile hshelf
  cases hget : (set.compile settings registry).get? name with
  | none =>
      rw [verdict?_eq_none hget] at h
      cases h
  | some entry =>
      obtain ⟨e, he, rfl⟩ := SchemaSet.exists_of_get?_compile hget
      rw [verdict?_eq_walk hget] at h
      cases hwalk : walk shelf [] (Entry.of name _).validator slot with
      | error cause =>
          rw [hwalk] at h
          cases h
      | ok issues =>
          rw [hwalk] at h
          have hnone : issues = [] := List.isEmpty_iff.1 (Option.some.inj h)
          have hfits := (hset.resolves.walk_eq_nil_iff (hset.inward hget) hwalk).1 hnone
          exact ⟨e, he, describes_iff_fits.2 hfits⟩

/-- In a set without dangling references, every slot that an element describes has a
positive verdict. -/
theorem verdict?_eq_true (hfree : set.DanglingFree)
    (hshelf : shelf.set? registry = some (set.compile settings registry)) {name : String}
    {e : Element} (he : set.get? name = some e) {slot : Slot}
    (h : set.Describes settings.unknownAttributes e slot) :
    (set.compile settings registry).verdict? shelf name slot = some true := by
  have hentry : (set.compile settings registry).get? name = some (Entry.of name _) :=
    SchemaSet.get?_compile_of_eq he
  obtain ⟨report, hreport, hvalid⟩ :=
    exists_report_describes hfree hshelf (hfree _ (Keyed.mem_of_find? he)) name slot
  have hcheck := (check_eq_ok_iff hentry).2 hreport
  rw [CompiledSet.verdict?, hcheck]
  exact congrArg some (hvalid.2 h)

/-- A reference to a missing name gives no verdict, like the name itself. -/
theorem verdict?_eq_of_missing (hset : Stands shelf registry (set.compile settings registry))
    {name target : String} (hname : set.get? name = some (.reference target false))
    (htarget : set.get? target = none) (slot : Slot) :
    (set.compile settings registry).verdict? shelf name slot =
      (set.compile settings registry).verdict? shelf target slot := by
  have hentry : (set.compile settings registry).get? name =
      some (Entry.of name (.reference target name registry)) :=
    SchemaSet.get?_compile_of_eq hname
  have hnone : (set.compile settings registry).get? target = none := by
    rw [SchemaSet.get?_compile, htarget, Option.map_none]
  have hbroken : shelf.resolve registry target name = .error _ :=
    hset.resolve_eq_error_iff.2 ⟨hnone, rfl⟩
  rw [verdict?_eq_none hnone, verdict?_eq_walk hentry]
  exact congrArg _ (congrArg _ (walk_broken List.not_mem_nil hbroken))

/-- A reference to an entry that does not lead back to itself for the same slot gives
the verdict of the entry. -/
theorem verdict?_eq_of_not_leadsOn
    (hset : Stands shelf registry (set.compile settings registry)) {name target : String}
    (hname : set.get? name = some (.reference target false)) {e : Element}
    (htarget : set.get? target = some e) (hopen : ¬TransGen set.LeadsOn target target)
    (slot : Slot) :
    (set.compile settings registry).verdict? shelf name slot =
      (set.compile settings registry).verdict? shelf target slot := by
  have hentry : (set.compile settings registry).get? name =
      some (Entry.of name (.reference target name registry)) :=
    SchemaSet.get?_compile_of_eq hname
  have hbehind : (set.compile settings registry).get? target =
      some (Entry.of target (e.compile settings.unknownAttributes target registry)) :=
    SchemaSet.get?_compile_of_eq htarget
  have hfollow : shelf.resolve registry target name = .ok (Entry.of target _) :=
    hset.resolve_eq_ok_iff.2 hbehind
  have hchain : walk shelf [target] (e.compile settings.unknownAttributes target registry) slot =
      walk shelf [] (e.compile settings.unknownAttributes target registry) slot := by
    refine walk_eq_of_leadsOn hset (fun next hnext other hpath => ?_) target slot
    have hother : other ≠ target := by
      rintro rfl
      exact hopen (.head' ⟨e, htarget, hnext⟩ hpath)
    simp [hother]
  rw [verdict?_eq_walk hentry, verdict?_eq_walk hbehind]
  exact congrArg _ (congrArg _ ((walk_follow List.not_mem_nil hfollow).trans hchain))

/-- Whatever references dangle and whatever cycles there are, a reference gives a
negative verdict exactly where its target does, so their verdicts never differ.  Where
the target does not lead back to itself for the same slot, or leads to defined names
only, both give a verdict or neither does. -/
theorem reference_verdict
    (hshelf : shelf.set? registry = some (set.compile settings registry)) {name target : String}
    (hname : set.get? name = some (.reference target false)) (slot : Slot) :
    ((set.compile settings registry).verdict? shelf name slot = some false ↔
      (set.compile settings registry).verdict? shelf target slot = some false) ∧
    (¬TransGen set.LeadsOn target target ∨ set.Defined target →
      (set.compile settings registry).verdict? shelf name slot =
        (set.compile settings registry).verdict? shelf target slot) := by
  have hset := Stands.of_compile hshelf
  cases htarget : set.get? target with
  | none =>
      have hneither := verdict?_eq_of_missing hset hname htarget slot
      exact ⟨by rw [hneither], fun _ => hneither⟩
  | some e =>
      have hentry : (set.compile settings registry).get? name =
          some (Entry.of name (.reference target name registry)) :=
        SchemaSet.get?_compile_of_eq hname
      have hbehind : (set.compile settings registry).get? target = some (Entry.of target _) :=
        SchemaSet.get?_compile_of_eq htarget
      have hreject : (set.compile settings registry).verdict? shelf name slot = some false ↔
          (set.compile settings registry).verdict? shelf target slot = some false := by
        rw [verdict?_eq_false_iff hentry, verdict?_eq_false_iff hbehind]
        exact rejects_reference_iff_entry hset hbehind
      refine ⟨hreject, ?_⟩
      rintro (hopen | hdefined)
      · exact verdict?_eq_of_not_leadsOn hset hname htarget hopen slot
      · -- both give a verdict, and where one is negative so is the other
        have hnext : ∀ next ∈ e.targets, set.Defined next := by
          intro next hnext other hpath
          exact hdefined other (.head ⟨e, htarget, hnext⟩ hpath)
        obtain ⟨first, hfirst⟩ := exists_verdict hset hname
          (fun next hmem => List.mem_singleton.1 hmem ▸ hdefined) slot
        obtain ⟨second, hsecond⟩ := exists_verdict hset htarget hnext slot
        rw [hfirst, hsecond, Option.some.injEq, Option.some.injEq] at hreject
        rw [hfirst, hsecond]
        cases first <;> cases second <;> simp_all

end Reports

/-- A reference to an entry one of whose alternatives leads to a missing name, and
another, but not for the slot itself, back to the entry. -/
def byway : SchemaSet :=
  .ofList [("R", .reference "X" false),
    ("X", .union [.lazy (.reference "a" false) false, .array (.reference "X" false) false] false),
    ("a", .union [.simple .number false, .reference "nothing" false] false)]

/-- The reference cannot be told apart from the entry. -/
theorem reference_verdict_byway :
    let compiled := byway.compile {} (.ofSet 0)
    let shelf := ({} : Shelf).put 0 compiled
    ∀ slot,
      (compiled.verdict? shelf "R" slot = some false ↔
        compiled.verdict? shelf "X" slot = some false) ∧
      compiled.verdict? shelf "R" slot = compiled.verdict? shelf "X" slot := by
  intro compiled shelf slot
  have hreference : byway.get? "R" = some (.reference "X" false) := by decide
  have hnext : ∀ name ∈ ["X", "a", "nothing"],
      ∀ other ∈ (byway.get? name).elim [] Element.openTargets, other ∈ ["a", "nothing"] := by
    decide
  have hleads : ∀ name ∈ ["X", "a", "nothing"], ∀ other, byway.LeadsOn name other →
      other ∈ ["a", "nothing"] := by
    rintro name hname other ⟨e, he, hmem⟩
    have hother := hnext name hname other
    rw [he] at hother
    exact hother hmem
  have hopen : ∀ other, TransGen byway.LeadsOn "X" other → other ∈ ["a", "nothing"] := by
    intro other hpath
    induction hpath with
    | single hfirst => exact hleads "X" List.mem_cons_self _ hfirst
    | tail _ hlast ih => exact hleads _ (List.mem_cons_of_mem _ ih) _ hlast
  have hnot : ¬TransGen byway.LeadsOn "X" "X" :=
    fun hpath => absurd (hopen "X" hpath) (by decide)
  have hshelf : shelf.set? (.ofSet 0) = some (byway.compile {} (.ofSet 0)) :=
    Shelf.set?_put _ _ _
  obtain ⟨hreject, hsame⟩ := reference_verdict hshelf hreference slot
  exact ⟨hreject, hsame (.inl hnot)⟩

/-- Two entries that lead to each other, each with one more alternative, and a reference
to one of them. -/
def detour (here there : Element) : SchemaSet where
  elements := [("R", .reference "X" false), ("X", .union [.reference "a" false, here] false),
    ("a", .union [.reference "X" false, there] false)]

/-- The verdict on a text in a detour. -/
def detourVerdict? (here there : Element) (name : String) : Option Bool :=
  ((detour here there).compile {} (.ofSet 0)).verdict?
    (({} : Shelf).put 0 ((detour here there).compile {} (.ofSet 0))) name (some (.string "x"))

/-- Where one of the alternatives takes a text and the other is missing, either the entry
has a verdict and the reference to it has none, or the other way round. -/
theorem reference_verdict_detour :
    (∀ here there, (detour here there).get? "R" = some (.reference "X" false)) ∧
    detourVerdict? (.simple .string false) (.reference "nothing" false) "X" = some true ∧
    detourVerdict? (.simple .string false) (.reference "nothing" false) "R" = none ∧
    detourVerdict? (.reference "nothing" false) (.simple .string false) "X" = none ∧
    detourVerdict? (.reference "nothing" false) (.simple .string false) "R" = some true := by
  refine ⟨fun _ _ => rfl, ?_, ?_, ?_, ?_⟩ <;> cbv

end SchemaSets
