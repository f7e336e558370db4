import SchemaSets.Proofs.Deferred.LiveSet
import SchemaSets.Proofs.Steps.Ending

/-!
# Validators that outlive their set

A validator that was taken from a set is still there when the set is dropped, and its
references lead nowhere from then on.  It does not answer wrongly for that: what it
still says it would have said before, and where it would have looked a name up it
says that it cannot.

The run of a check before the drop and the run after it take the same steps until a
name is to be looked up (`step_eq_of_wanted?`), and at the first such name the run
after the drop breaks off (`ends_outlived`).  A run in which no name is looked up is
not broken off by anything, so there the report is the same.  The search for absence
goes on without the names, and finds what fits in a set without entries; more entries
take no reason away (`FitsBeyond.of_get?`).

A lazy node may be built for the first time after the drop.  What it is built from
was kept with it, so that it makes no difference when it is built; and the child has
the references of a set that is gone (`mirrors_dropped`).

## Main results

* `outliving_never_misleads` — a check and a question of absence after the drop, next
  to those before it.
-/

namespace SchemaSets

/-- A set that is taken from the shelf does not stand there any more. -/
theorem Shelf.set?_drop (shelf : Shelf) (id : Nat) : (shelf.drop id).set? (.ofSet id) = none := by
  rw [set?, find?, Option.map_eq_none_iff, List.find?_eq_none]
  intro numbered hmem
  simpa [drop] using (List.mem_filter.1 hmem).2

/-- Nothing resolves where no set stands. -/
theorem Shelf.resolve_of_set?_eq_none {shelf : Shelf} {registry : Handle}
    (h : shelf.set? registry = none) (target owner : String) :
    shelf.resolve registry target owner = .error (.unavailable target) := by
  rw [resolve, h]

/-! ## Checks -/

namespace Walking

/-- The name that is looked up in a state. -/
def State.wanted? : State → Option String
  | .lookup _ target .. => some target
  | _ => none

/-- The names that are looked up in the states of a run, in order. -/
def lookups (passed : List State) : List String := passed.filterMap State.wanted?

/-- What a check comes to if its first look at a name leads nowhere. -/
def outlived (passed : List State) (result : Except ReferenceError Report) :
    Except ReferenceError Report :=
  match lookups passed with
  | [] => result
  | target :: _ => .error (.unavailable target)

section Runs

variable {shelf gone : Shelf} {registry : Handle} {names : List String}
  {s s' : State} {passed : List State} {result : Except ReferenceError Report}

theorem lookups_cons_of_eq_none (h : s.wanted? = none) :
    lookups (s :: passed) = lookups passed :=
  List.filterMap_cons_none h

theorem lookups_cons_of_eq_some {target : String} (h : s.wanted? = some target) :
    lookups (s :: passed) = target :: lookups passed :=
  List.filterMap_cons_some h

/-- A step in which no name is looked up is the same on any shelf. -/
theorem step_eq_of_wanted? (h : s.wanted? = none) :
    (machine shelf).step s = (machine gone).step s := by
  cases s with
  | lookup => cases h
  | found issues stack => cases stack <;> rfl
  | _ => rfl

/-- Where no set stands, a sound check breaks off at a name that it looks up. -/
theorem ends_of_wanted? (hgone : gone.set? registry = none) (hs : s.Sound registry names)
    {target : String} (h : s.wanted? = some target) :
    (machine gone).Ends s (.error (.unavailable target)) := by
  cases s with
  | lookup chain target owner through slot stack =>
      cases h
      obtain ⟨-, -, rfl, -⟩ := hs
      have hgoes : (machine gone).Goes (.lookup chain target owner through slot stack)
          (.broken (.unavailable target)) := by
        simp [Machine.Goes, machine, Shelf.resolve_of_set?_eq_none hgone]
      exact Machine.Reaches.ends (.single hgoes) (Machine.ends_of_step rfl)
  | _ => cases h

/-- Where no set stands, a sound check ends as the run on a shelf on which the set
stands, until a name is looked up. -/
theorem ends_outlived (hleads : ∀ {target owner : String} {entry : Entry},
      shelf.resolve registry target owner = .ok entry →
        target ∈ names ∧ ∀ link ∈ entry.validator.links, link.registry = registry)
    (hgone : gone.set? registry = none) (hs : s.Sound registry names)
    (h : (machine shelf).Runs s passed result) :
    (machine gone).Ends s (outlived passed result) := by
  induction h with
  | @last s result ends =>
      cases hwanted : s.wanted? with
      | none =>
          rw [outlived, lookups_cons_of_eq_none hwanted]
          exact Machine.ends_of_step ((step_eq_of_wanted? hwanted).symm.trans ends)
      | some target =>
          rw [outlived, lookups_cons_of_eq_some hwanted]
          exact ends_of_wanted? hgone hs hwanted
  | @next s s' passed result goes _ ih =>
      cases hwanted : s.wanted? with
      | none =>
          rw [outlived, lookups_cons_of_eq_none hwanted, ← outlived]
          have hgoes : (machine gone).Goes s s' := (step_eq_of_wanted? hwanted).symm.trans goes
          exact Machine.Reaches.ends (.single hgoes) (ih (sound_goes hleads hs goes))
      | some target =>
          rw [outlived, lookups_cons_of_eq_some hwanted]
          exact ends_of_wanted? hgone hs hwanted

/-! ### Runs without a lookup -/

/-- A check that was not broken off. -/
def State.Whole : State → Prop
  | .broken _ => False
  | _ => True

theorem whole_onFields {members : List (String × Value)} {extra sofar : List Issue}
    {stack : List Frame} (fields : List (String × Validator)) :
    (State.onFields members extra sofar stack fields).Whole := by
  cases fields <;> trivial

theorem whole_onItems {item : Validator} {position : Nat} {sofar : List Issue}
    {stack : List Frame} (items : List Value) :
    (State.onItems item position sofar stack items).Whole := by
  cases items <;> trivial

theorem whole_onMembers {value : Validator} {sofar : List Issue} {stack : List Frame}
    (members : List (String × Value)) : (State.onMembers value sofar stack members).Whole := by
  cases members <;> trivial

theorem whole_onBranches {chain : List String} {count : Nat} {slot : Slot} {stack : List Frame}
    (branches : List Validator) : (State.onBranches chain count slot stack branches).Whole := by
  cases branches <;> trivial

/-- Only a name that is looked up breaks a check off. -/
theorem whole_goes (hs : s.Whole) (hwanted : s.wanted? = none) (h : (machine shelf).Goes s s') :
    s'.Whole := by
  cases s with
  | check chain v slot stack =>
      cases h
      fun_cases State.enter chain slot stack v with
      | case8 fields closed members => exact whole_onFields fields
      | case10 item items => exact whole_onItems items
      | case12 value members => exact whole_onMembers members
      | case14 => exact whole_onBranches _
      | _ => trivial
  | lookup => cases hwanted
  | found issues stack =>
      cases stack with
      | nil => cases h
      | cons frame stack =>
          cases h
          cases frame with
          | fields name rest members extra sofar => exact whole_onFields rest
          | items item position rest sofar => exact whole_onItems rest
          | members value key rest sofar => exact whole_onMembers rest
          | branches chain rest count slot =>
              rw [State.resume]
              split
              · trivial
              · exact whole_onBranches rest
  | broken cause => exact hs.elim

/-- A check in which no name is looked up comes to a report. -/
theorem exists_report_of_lookups_eq_nil (hs : s.Whole) (hnone : lookups passed = [])
    (h : (machine shelf).Runs s passed result) : ∃ report, result = .ok report := by
  induction h with
  | @last s result ends =>
      cases s with
      | found issues stack =>
          cases stack with
          | nil => exact ⟨_, Sum.inr.inj ends.symm⟩
          | cons frame stack => cases ends
      | broken cause => exact hs.elim
      | check => cases ends
      | lookup => cases hnone
  | @next s s' passed result goes _ ih =>
      cases hwanted : s.wanted? with
      | none =>
          rw [lookups_cons_of_eq_none hwanted] at hnone
          exact ih (whole_goes hs hwanted goes) hnone
      | some target =>
          rw [lookups_cons_of_eq_some hwanted] at hnone
          cases hnone

end Runs

/-- A report that is given where no set stands is given where the set stands; and no
report is given exactly if the check there looks a name up, for want of the first. -/
theorem outlives {shelf gone : Shelf} {registry : Handle} {names : List String}
    (hleads : ∀ {target owner : String} {entry : Entry},
      shelf.resolve registry target owner = .ok entry →
        target ∈ names ∧ ∀ link ∈ entry.validator.links, link.registry = registry)
    (hgone : gone.set? registry = none) {v : Validator}
    (hinward : ∀ link ∈ v.links, link.registry = registry) (slot : Slot) :
    (∀ report, v.validateSlot gone slot = .ok report → v.validateSlot shelf slot = .ok report) ∧
    ∃ passed, (machine shelf).Runs (start v slot) passed (v.validateSlot shelf slot) ∧
      (∀ cause, v.validateSlot gone slot = .error cause →
        ∃ target, (lookups passed).head? = some target ∧ cause = .unavailable target) ∧
      ((∃ cause, v.validateSlot gone slot = .error cause) ↔ lookups passed ≠ []) := by
  obtain ⟨passed, hruns⟩ := (ends_start shelf v slot).exists_runs
  have hsound : (start v slot).Sound registry names := sound_of_reaches hleads hinward .refl
  have hwhole : (start v slot).Whole := trivial
  have hafter : v.validateSlot gone slot = outlived passed (v.validateSlot shelf slot) :=
    (ends_start gone v slot).unique (ends_outlived hleads hgone hsound hruns)
  rw [outlived] at hafter
  cases hlookups : lookups passed with
  | nil =>
      obtain ⟨report, hreport⟩ := exists_report_of_lookups_eq_nil hwhole hlookups hruns
      rw [hlookups] at hafter
      refine ⟨fun _ hok => hafter.symm.trans hok, passed, hruns, ?_⟩
      simp [hafter, hreport, hlookups]
  | cons target rest =>
      rw [hlookups] at hafter
      refine ⟨fun report hok => ?_, passed, hruns, ?_⟩
      · rw [hafter] at hok
        cases hok
      · simp [hafter, hlookups]

end Walking

/-! ## Absence -/

/-- More entries take no reason away. -/
theorem FitsBeyond.of_get? {set larger : CompiledSet}
    (hlarger : ∀ name entry, set.get? name = some entry → larger.get? name = some entry)
    {chain : List String} {v : Validator} {slot : Slot} (h : FitsBeyond set chain v slot) :
    FitsBeyond larger chain v slot := by
  induction h with
  | leaf takes => exact .leaf takes
  | object _ listed each => exact .object each listed
  | array _ each => exact .array each
  | record _ each => exact .record each
  | union mem _ ih => exact .union mem ih
  | lazy _ ih => exact .lazy ih
  | reference new found _ ih => exact .reference new (hlarger _ _ found) ih
  | absent => exact .absent
  | present _ ih => exact .present ih

/-- Where no set stands, links are found in a set without entries. -/
theorem Shelf.resolves_of_set?_eq_none {shelf : Shelf} {registry : Handle}
    (h : shelf.set? registry = none) :
    Resolves shelf ⟨[]⟩ fun link => link.registry = registry where
  found := by
    rintro ⟨target, owner, through⟩ entry rfl
    rw [follow, resolve_of_set?_eq_none h]
    constructor <;> intro hfound <;> cases hfound
  onward := by
    rintro ⟨target, owner, through⟩ entry rfl hfollow
    rw [follow, resolve_of_set?_eq_none h] at hfollow
    cases hfollow

/-- What may be absent where no set stands may be absent where one does. -/
theorem Stands.mayBeAbsent_of_gone {shelf gone : Shelf} {registry : Handle} {set : CompiledSet}
    (hset : Stands shelf registry set) (hgone : gone.set? registry = none) {v : Validator}
    (hinward : ∀ link ∈ v.links, link.registry = registry) (h : v.mayBeAbsent gone = true) :
    v.mayBeAbsent shelf = true := by
  rw [mayBeAbsent_iff hset hinward]
  refine FitsBeyond.of_get? (fun name entry hfound => ?_)
    (((Shelf.resolves_of_set?_eq_none hgone).mayBeAbsent_iff hinward).1 h)
  cases hfound

/-! ## Children that are built later -/

/-- What is planted under a name is the compiled element of that name. -/
theorem SchemaSet.get?_plant {settings : CompilerSettings} {registry : Handle} {set : SchemaSet}
    {name : String} : (set.plant settings registry).get? name =
      (set.get? name).map (Element.plant settings.unknownAttributes name registry) :=
  Keyed.find?_mapValues
    (fun name (e : Element) => e.plant settings.unknownAttributes name registry) _ _

/-- What is left of a planted set that was dropped: no handle leads there. -/
def Planted.dropped : Planted := ⟨.detached, []⟩

/-- A planted set that was dropped mirrors a shelf on which the set does not stand. -/
theorem Planted.mirrors_dropped {gone : Shelf} {id : Nat} (hgone : gone.set? (.ofSet id) = none) :
    dropped.Mirrors gone (.ofSet id) where
  resolve_cases target owner :=
    .inl ⟨.unavailable target, if_neg Handle.noConfusion,
      Shelf.resolve_of_set?_eq_none hgone target owner⟩

/-- Whatever was built before, a check and a question of absence that build what they
come to have the answers that they have on the shelf that is mirrored. -/
theorem Planted.Mirrors.answers {planted : Planted} {shelf : Shelf} {registry : Handle}
    (hmirrors : planted.Mirrors shelf registry) {v : Deferred}
    (hinward : ∀ link ∈ v.full.links, link.registry = registry) (place : Place) (slot : Slot)
    (memory : Memory) :
    ((planted.walkThrough [] place v slot).run memory).1.map Report.mk =
        v.full.validateSlot shelf slot ∧
      ((planted.absenceThrough ⟨place, v⟩).run memory).1 = v.full.mayBeAbsent shelf := by
  rw [Demand.fst_run, Demand.fst_run, hmirrors.walksAs hinward rfl,
    hmirrors.outcome_absenceThrough hinward rfl, Validator.validateSlot, bind_ok_eq_map]
  exact ⟨rfl, rfl⟩

/-! ## Before and after the drop -/

/-- An entry's validator is taken from a set that stands in a workspace and was asked
anything; then the set is dropped.  A report that the validator still gives is the
report that it gave before.  It breaks off exactly where the check before looks up a
name, at the first such name and because nothing stands behind the handle.  If it
still says that a value may be absent, it did so before.  And all of this is what the
lazy nodes of the validator give, whichever of them were built before the drop. -/
theorem outliving_never_misleads {set : SchemaSet} {name : String} {e : Element}
    (hentry : set.get? name = some e) (settings : CompilerSettings) (w : Workspace)
    (ops : List Operation) (slot : Slot) :
    let id := w.nextId
    let alive := ((w.compile settings set).2.run id (set.compile settings (.ofSet id)) ops).2
    let gone := alive.drop id
    let held := Located.ofEntry (.ofSet id) name
      (e.compile settings.unknownAttributes name (.ofSet id))
    let before := (alive.check held slot).1
    let after := (gone.check held slot).1
    (∀ report, after = .ok report → before = .ok report) ∧
    (∃ passed,
      (Walking.machine alive.shelf).Runs (Walking.start held.validator slot) passed before ∧
      (∀ cause, after = .error cause →
        ∃ target, (Walking.lookups passed).head? = some target ∧ cause = .unavailable target) ∧
      ((∃ cause, after = .error cause) ↔ Walking.lookups passed ≠ [])) ∧
    ((gone.mayBeAbsent held).1 = true → (alive.mayBeAbsent held).1 = true) ∧
    let planted := set.plant settings (.ofSet id)
    let v := e.plant settings.unknownAttributes name (.ofSet id)
    planted.get? name = some v ∧ ∀ memory,
      (((planted.walkThrough [] held.place v slot).run memory).1.map Report.mk = before ∧
        ((planted.absenceThrough ⟨held.place, v⟩).run memory).1 = (alive.mayBeAbsent held).1) ∧
      ((Planted.dropped.walkThrough [] held.place v slot).run memory).1.map Report.mk = after ∧
        ((Planted.dropped.absenceThrough ⟨held.place, v⟩).run memory).1 =
          (gone.mayBeAbsent held).1 := by
  intro id alive gone held before after
  have hshelf : alive.shelf.set? (.ofSet id) = some (set.compile settings (.ofSet id)) := by
    rw [show alive.shelf = _ from Workspace.shelf_run ops]
    exact Shelf.set?_put _ _ _
  have hgone : gone.shelf.set? (.ofSet id) = none := Shelf.set?_drop _ _
  have hinward : ∀ link ∈ held.validator.links, link.registry = .ofSet id :=
    fun link hlink => (Element.mem_links_compile.1 hlink).2.2
  have hfull : held.validator =
      (e.plant settings.unknownAttributes name (.ofSet id)).full := e.full_plant.symm
  obtain ⟨hreport, hchecks⟩ :=
    Walking.outlives (mem_names_of_resolve_eq_ok (.inl hshelf)) hgone hinward slot
  refine ⟨hreport, hchecks, fun habsent => ?_, ?_, fun memory => ⟨?_, ?_⟩⟩
  · exact (Stands.of_compile hshelf).mayBeAbsent_of_gone hgone hinward habsent
  · rw [SchemaSet.get?_plant, hentry, Option.map_some]
  · show _ = held.validator.validateSlot _ _ ∧ _ = held.validator.mayBeAbsent _
    rw [hfull]
    exact (SchemaSet.yields_plant hshelf).mirrors.answers (hfull ▸ hinward) _ _ _
  · show _ = held.validator.validateSlot _ _ ∧ _ = held.validator.mayBeAbsent _
    rw [hfull]
    exact (Planted.mirrors_dropped hgone).answers (hfull ▸ hinward) _ _ _

/-- A letter is sent to everyone or to a person, of whom nothing is said until then. -/
def letter : Element :=
  .union [.literal "everyone" false, .lazy (.reference "person" false) false] false

/-- Letters and the persons that they are sent to. -/
def post : SchemaSet := ⟨[("letter", letter), ("person", .simple .string false)]⟩

/-- After the drop a letter to everyone is as valid as before, and a letter to a person
is broken off at the first name that was looked up. -/
theorem outliving_never_misleads_letter :
    let alive := (({} : Workspace).compile {} post).2
    let held := Located.ofEntry (.ofSet 0) "letter" (letter.compile .ignore "letter" (.ofSet 0))
    post.get? "letter" = some letter ∧
    ((alive.drop 0).check held (some (.string "everyone"))).1 = .ok ⟨[]⟩ ∧
    (alive.check held (some (.string "everyone"))).1 = .ok ⟨[]⟩ ∧
    ((alive.drop 0).check held (some (.string "Ada"))).1 = .error (.unavailable "person") ∧
    ∃ passed, (Walking.machine alive.shelf).Runs
        (Walking.start held.validator (some (.string "Ada"))) passed
        (alive.check held (some (.string "Ada"))).1 ∧
      (Walking.lookups passed).head? = some "person" := by
  intro alive held
  have hentry : post.get? "letter" = some letter := rfl
  have hopen : ((alive.drop 0).check held (some (.string "everyone"))).1 = .ok ⟨[]⟩ := by
    show Validator.validateSlot _ (.union [.literal "everyone", .lazy _ _]) _ = _
    rw [Validator.validateSlot, walk, walkBranches, walk]
    rfl
  have hclosed : ((alive.drop 0).check held (some (.string "Ada"))).1 =
      .error (.unavailable "person") := by
    have hgone : (alive.drop 0).shelf.set? (.ofSet 0) = none := Shelf.set?_drop _ _
    show Validator.validateSlot _ (.union [.literal "everyone", .lazy _ (.reference ..)]) _ = _
    rw [Validator.validateSlot, walk, walkBranches, walk, walkBranches, walk,
      walk_broken List.not_mem_nil (Shelf.resolve_of_set?_eq_none hgone _ _)]
    rfl
  obtain ⟨hreport, -⟩ := outliving_never_misleads hentry {} {} [] (some (.string "everyone"))
  obtain ⟨-, ⟨passed, hruns, hbroken, -⟩, -⟩ :=
    outliving_never_misleads hentry {} {} [] (some (.string "Ada"))
  obtain ⟨target, hfirst, hcause⟩ := hbroken _ hclosed
  cases hcause
  exact ⟨hentry, hopen, hreport _ hopen, hclosed, passed, hruns, hfirst⟩

end SchemaSets
