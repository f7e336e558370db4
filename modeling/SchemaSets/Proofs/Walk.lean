import SchemaSets.Proofs.Parts

/-!
# What a walk finds

The walk of `Validator.Walk` is an algorithm: it tries branches in order, cuts
chains and stops at the first reference that cannot be followed.  Here it is
tied to the two things that can be said without it.

If the walk comes to an end it finds no issue exactly if there is a reason for
the slot to fit (`Resolves.walk_eq_nil_iff`).  The walk and the reasons carry the same
chains, so the two agree step by step; that the chain costs no reason is the
business of `FitsBeyond.cut`.

If the walk is broken off, some link is to blame that cannot be followed, and
it is one that the validator leads to (`exists_link_of_walk_eq_error`).  What
the validator leads to is given by any property of links that following a link
keeps.

Both are inductions along the walk, over the cases of `walk_descent`.
-/

namespace SchemaSets

/-! ## Branches -/

section Branches

variable {shelf : Shelf} {chain : List String} {slot : Slot} {branches : List Validator}

/-- A traversal of branches that ends has found one that fits, or there is
none. -/
private theorem walkBranches_eq_true_iff {fits : Bool} {Fits : Validator → Prop}
    (hwalk : walkBranches shelf chain branches slot = .ok fits)
    (hfits : ∀ branch ∈ branches, ∀ issues, walk shelf chain branch slot = .ok issues →
      (issues = [] ↔ Fits branch)) :
    fits = true ↔ ∃ branch ∈ branches, Fits branch := by
  induction branches with
  | nil =>
      rw [walkBranches] at hwalk
      cases hwalk
      simp
  | cons branch rest ih =>
      rw [walkBranches, bind_eq_ok_iff] at hwalk
      obtain ⟨issues, hissues, hwalk⟩ := hwalk
      have hbranch := hfits branch List.mem_cons_self issues hissues
      by_cases hnone : issues = []
      · have hfit := hbranch.1 hnone
        simp only [hnone, List.isEmpty_nil, if_true, Except.ok.injEq] at hwalk
        simp [← hwalk, hfit]
      · have hunfit := mt hbranch.2 hnone
        rw [if_neg (by simpa using hnone)] at hwalk
        rw [ih hwalk fun b hb => hfits b (List.mem_cons_of_mem _ hb)]
        simp [hunfit]

/-- A traversal of branches that is broken off is so at one of them. -/
private theorem exists_of_walkBranches_eq_error {cause : ReferenceError}
    (h : walkBranches shelf chain branches slot = .error cause) :
    ∃ branch ∈ branches, walk shelf chain branch slot = .error cause := by
  induction branches with
  | nil =>
      rw [walkBranches] at h
      cases h
  | cons branch rest ih =>
      rw [walkBranches, bind_eq_error_iff] at h
      rcases h with h | ⟨issues, -, h⟩
      · exact ⟨branch, List.mem_cons_self, h⟩
      · split at h
        · cases h
        · obtain ⟨other, hmem, hother⟩ := ih h
          exact ⟨other, List.mem_cons_of_mem _ hmem, hother⟩

end Branches

/-! ## What a finished walk finds -/

@[simp] theorem checked_eq_nil_iff {ok : Bool} {expected : Expectation} {slot : Slot} :
    checked ok expected slot = [] ↔ ok = true := by
  cases ok <;> simp [checked]

/-- What fits a node that asks for something is what it asks for, with parts that fit and
nothing astray. -/
theorem FitsBeyond.asks_iff {set : CompiledSet} {chain : List String} {v : Validator} {slot : Slot}
    {expected : Expectation} (hasks : v.asks? = some expected) :
    FitsBeyond set chain v slot ↔ v.admits slot = true ∧
      (∀ part ∈ v.parts slot, FitsBeyond set [] part.validator part.slot) ∧
        v.strays slot = [] := by
  cases v with
  | any | union | lazy | reference | optional => cases hasks
  | literal | boolean | string | number | enumeration | function =>
      rw [leaf_iff (by trivial)]
      simp [Validator.admits, Validator.parts, Validator.strays]
  | object fields closed =>
      rw [object_iff]
      rcases slot with _ | (_ | _ | _ | _ | _ | members | _)
      case some.object =>
        rw [Validator.parts, List.forall_mem_map]
        cases closed <;> simp [Validator.admits, Validator.strays]
      all_goals simp [Validator.admits, Validator.leafTakes]
  | array item =>
      rw [array_iff]
      rcases slot with _ | (_ | _ | _ | _ | items | _ | _)
      case some.array =>
        have hitems : (∀ x ∈ items, FitsBeyond set [] item (some x)) ↔
            ∀ numbered ∈ items.zipIdx, FitsBeyond set [] item (some numbered.1) := by
          nth_rewrite 1 [← List.zipIdx_map_fst 0 items]
          exact List.forall_mem_map
        rw [Validator.parts, List.forall_mem_map, ← hitems]
        simp [Validator.admits, Validator.strays]
      all_goals simp [Validator.admits, Validator.leafTakes]
  | record value =>
      rw [record_iff]
      rcases slot with _ | (_ | _ | _ | _ | _ | members | _)
      case some.object =>
        rw [Validator.parts, List.forall_mem_map]
        simp [Validator.admits, Validator.strays]
      all_goals simp [Validator.admits, Validator.leafTakes]

section Resolving

variable {shelf : Shelf} {set : CompiledSet} {Met : Link → Prop}

/-- A walk that comes to its end finds no issue exactly if there is a reason,
beyond the names of its chain, for the slot to fit. -/
theorem Resolves.walk_eq_nil_iff (hset : Resolves shelf set Met) {chain : List String}
    {v : Validator} {slot : Slot} {issues : List Issue} (hlinks : ∀ link ∈ v.links, Met link)
    (hwalk : walk shelf chain v slot = .ok issues) :
    issues = [] ↔ FitsBeyond set chain v slot := by
  induction chain, v, slot using walk_descent shelf generalizing issues with
  | any chain slot =>
      rw [walk_any] at hwalk
      cases hwalk
      simp [FitsBeyond.leaf_iff (v := .any) trivial, Validator.leafTakes]
  | asks chain v slot expected hasks ih =>
      rw [FitsBeyond.asks_iff hasks]
      by_cases hadmits : v.admits slot = true
      · obtain ⟨within, hwithin, rfl⟩ := (walk_eq_ok_iff_of_admits hasks hadmits).1 hwalk
        have hparts := walkParts_eq_nil_iff hwithin fun part hpart found hfound =>
          ih part hpart (fun link hlink =>
            hlinks link (Validator.mem_links_of_mem_parts hpart hlink)) hfound
        rw [List.append_eq_nil_iff, hparts]
        simp [hadmits]
      · rw [walk_of_asks hasks, if_neg hadmits] at hwalk
        cases hwalk
        simp [hadmits]
  | union chain branches slot ih =>
      rw [walk, bind_eq_ok_iff] at hwalk
      obtain ⟨fits, hfits, hwalk⟩ := hwalk
      cases hwalk
      simp only [Validator.links, Validator.mem_linksOfList] at hlinks
      rw [checked_eq_nil_iff, FitsBeyond.union_iff]
      refine walkBranches_eq_true_iff hfits fun branch hbranch issues hissues => ?_
      exact ih branch hbranch (fun link hlink => hlinks link ⟨branch, hbranch, hlink⟩) hissues
  | lazy chain label child slot ih =>
      rw [walk] at hwalk
      rw [FitsBeyond.lazy_iff]
      exact ih hlinks hwalk
  | cycle chain target owner registry slot h =>
      rw [walk_cycle h] at hwalk
      cases hwalk
      rw [FitsBeyond.reference_iff]
      simp [h]
  | broken chain target owner through slot cause hnew h =>
      rw [walk_broken hnew h] at hwalk
      cases hwalk
  | follow chain target owner through slot entry hnew h ih =>
      have hmet : Met ⟨target, owner, through⟩ := hlinks _ (by simp [Validator.links])
      have hfound := (hset.found hmet).1 h
      rw [walk_follow hnew h] at hwalk
      rw [FitsBeyond.reference_iff, ih (hset.onward hmet h) hwalk]
      simp [hnew, hfound]
  | absent chain inner =>
      rw [walk] at hwalk
      cases hwalk
      simp [FitsBeyond.absent]
  | present chain inner x ih =>
      rw [walk] at hwalk
      rw [FitsBeyond.present_iff]
      exact ih hlinks hwalk

end Resolving

/-! ## What breaks a walk off -/

/-- A walk that is broken off met a link that cannot be followed, and that link
has every property that the links of the validator have and that following a
link keeps. -/
theorem exists_link_of_walk_eq_error {shelf : Shelf} {Met : Link → Prop}
    (hmet : ∀ link entry, Met link → shelf.follow link = .ok entry →
      ∀ next ∈ entry.validator.links, Met next)
    {chain : List String} {v : Validator} {slot : Slot} {cause : ReferenceError}
    (hlinks : ∀ link ∈ v.links, Met link) (hwalk : walk shelf chain v slot = .error cause) :
    ∃ link, Met link ∧ shelf.follow link = .error cause := by
  induction chain, v, slot using walk_descent shelf with
  | any chain slot =>
      rw [walk_any] at hwalk
      cases hwalk
  | asks chain v slot expected hasks ih =>
      rw [walk_of_asks hasks] at hwalk
      split at hwalk
      · cases hwithin : walkParts shelf (v.parts slot) with
        | ok within =>
            rw [hwithin] at hwalk
            cases hwalk
        | error reason =>
            rw [hwithin] at hwalk
            cases hwalk
            obtain ⟨part, hpart, hbroken⟩ := exists_of_walkParts_eq_error hwithin
            exact ih part hpart (fun link hlink =>
              hlinks link (Validator.mem_links_of_mem_parts hpart hlink)) hbroken
      · cases hwalk
  | union chain branches slot ih =>
      rw [walk, bind_eq_error_iff] at hwalk
      rcases hwalk with hwalk | ⟨fits, -, hwalk⟩
      · obtain ⟨branch, hbranch, hbroken⟩ := exists_of_walkBranches_eq_error hwalk
        simp only [Validator.links, Validator.mem_linksOfList] at hlinks
        exact ih branch hbranch (fun link hlink => hlinks link ⟨branch, hbranch, hlink⟩) hbroken
      · cases hwalk
  | lazy chain label child slot ih =>
      rw [walk] at hwalk
      exact ih hlinks hwalk
  | cycle chain target owner registry slot h =>
      rw [walk_cycle h] at hwalk
      cases hwalk
  | broken chain target owner registry slot reason hnew h =>
      rw [walk_broken hnew h] at hwalk
      cases hwalk
      exact ⟨⟨target, owner, registry⟩, hlinks _ (by simp [Validator.links]), h⟩
  | follow chain target owner registry slot entry hnew h ih =>
      rw [walk_follow hnew h] at hwalk
      have hlink : Met ⟨target, owner, registry⟩ := hlinks _ (by simp [Validator.links])
      exact ih (hmet _ entry hlink h) hwalk
  | absent chain inner =>
      rw [walk] at hwalk
      cases hwalk
  | present chain inner x ih =>
      rw [walk] at hwalk
      exact ih hlinks hwalk

/-! ## Reports -/

section Reports

variable {shelf : Shelf} {registry : Handle} {set : CompiledSet} {v : Validator} {slot : Slot}

/-- A report is on issues that a walk found. -/
theorem validateSlot_eq_ok_iff {report : Report} :
    v.validateSlot shelf slot = .ok report ↔ walk shelf [] v slot = .ok report.issues := by
  rw [Validator.validateSlot, bind_eq_ok_iff]
  constructor
  · rintro ⟨issues, hissues, h⟩
    cases h
    exact hissues
  · intro h
    exact ⟨report.issues, h, rfl⟩

/-- Acceptance is a report without issues. -/
theorem acceptsSlot_eq_ok_iff {b : Bool} :
    v.acceptsSlot shelf slot = .ok b ↔
      ∃ report, v.validateSlot shelf slot = .ok report ∧ report.isValid = b := by
  rw [Validator.acceptsSlot, bind_eq_ok_iff]
  simp

/-- The report on a slot, if there is one, says whether the slot fits. -/
theorem Resolves.isValid_iff_fits {Met : Link → Prop} (hset : Resolves shelf set Met)
    (hlinks : ∀ link ∈ v.links, Met link) {report : Report}
    (hreport : v.validateSlot shelf slot = .ok report) :
    report.isValid = true ↔ Fits set v slot := by
  rw [Report.isValid, List.isEmpty_iff, Fits]
  exact hset.walk_eq_nil_iff hlinks (validateSlot_eq_ok_iff.1 hreport)

/-- Inside one set the report on a slot, if there is one, says whether the slot fits. -/
theorem isValid_iff_fits (hset : Stands shelf registry set)
    (hinward : ∀ link ∈ v.links, link.registry = registry) {report : Report}
    (hreport : v.validateSlot shelf slot = .ok report) :
    report.isValid = true ↔ Fits set v slot :=
  hset.resolves.isValid_iff_fits hinward hreport

/-- A walk comes to its end if every name that the validator leads to is the name of
an entry. -/
theorem exists_issues (hset : Stands shelf registry set) {Met : String → Prop}
    (hmet : ∀ name, Met name → ∃ entry, set.get? name = some entry ∧
      ∀ link ∈ entry.validator.links, Met link.target)
    (hlinks : v.LinksWithin registry Met) (chain : List String) (slot : Slot) :
    ∃ issues, walk shelf chain v slot = .ok issues := by
  cases hwalk : walk shelf chain v slot with
  | ok issues => exact ⟨issues, rfl⟩
  | error cause =>
      have hkeep : ∀ link entry, link.registry = registry ∧ Met link.target →
          shelf.follow link = .ok entry →
            ∀ next ∈ entry.validator.links, next.registry = registry ∧ Met next.target := by
        rintro ⟨target, owner, through⟩ entry ⟨rfl, htarget⟩ hfollow next hnext
        have hfound := hset.resolve_eq_ok_iff.1 hfollow
        obtain ⟨found, hentry, hnames⟩ := hmet target htarget
        rw [hentry, Option.some.injEq] at hfound
        subst hfound
        exact hset.linksWithin hentry hnames next hnext
      obtain ⟨⟨target, owner, through⟩, ⟨rfl, htarget⟩, hfollow⟩ :=
        exists_link_of_walk_eq_error hkeep hlinks hwalk
      obtain ⟨entry, hentry, -⟩ := hmet target htarget
      have hnone := (hset.resolve_eq_error_iff.1 hfollow).1
      rw [hentry] at hnone
      cases hnone

/-- So there is a report on every slot. -/
theorem exists_report (hset : Stands shelf registry set) {Met : String → Prop}
    (hmet : ∀ name, Met name → ∃ entry, set.get? name = some entry ∧
      ∀ link ∈ entry.validator.links, Met link.target)
    (hlinks : v.LinksWithin registry Met) (slot : Slot) :
    ∃ report, v.validateSlot shelf slot = .ok report := by
  obtain ⟨issues, hissues⟩ := exists_issues hset hmet hlinks [] slot
  exact ⟨⟨issues⟩, validateSlot_eq_ok_iff.2 hissues⟩

end Reports

end SchemaSets
