import SchemaSets.Proofs.Bare
import SchemaSets.Proofs.Building
import SchemaSets.Proofs.Deferred.Demand

/-!
# Walks that ask for children

A planted set is a compiled set in which nothing was built yet.  A walk through it
goes the way of `walk`, and asks for the child of each lazy node that it comes to.
With everything built anew it has the outcome of that walk, and it asks for what
that walk is said to build (`Mirrors.walksAs`).
-/

namespace SchemaSets

/-! ## Planted sets -/

/-- Names and their compiled elements, and the handle that their references go
through. -/
structure Planted where
  registry : Handle
  entries : List (String × Deferred)

namespace Planted

/-- The compiled element of a name. -/
def get? (set : Planted) (name : String) : Option Deferred := Keyed.find? name set.entries

/-- The names, in order. -/
def names (set : Planted) : List String := Keyed.keys set.entries

/-- What a name stands for behind a handle, on behalf of the entry `owner`. -/
def resolve (set : Planted) (registry : Handle) (target owner : String) :
    Except ReferenceError Deferred :=
  if registry = set.registry then
    match set.get? target with
    | some v => .ok v
    | none => .error (.unresolved target owner set.names)
  else .error (.unavailable target)

/-- A name that resolves is a name of the set. -/
theorem mem_names_of_resolve {set : Planted} {registry : Handle} {target owner : String}
    {v : Deferred} (h : set.resolve registry target owner = .ok v) : target ∈ set.names := by
  rw [resolve] at h
  split at h
  · split at h
    · next hfound => exact Keyed.mem_keys_of_find? hfound
    · cases h
  · cases h

end Planted

/-- Compiles a set of elements as far as their lazy elements. -/
def SchemaSet.plant (settings : CompilerSettings) (registry : Handle) (set : SchemaSet) :
    Planted where
  registry := registry
  entries := set.elements.map fun e => (e.1, e.2.plant settings.unknownAttributes e.1 registry)

/-! ## Walks -/

namespace Demand

/-- A traversal and the one after it, if the first leaves anything to look at. -/
def gather (first : Demand (Except ReferenceError (List Issue))) (under : Issue → Issue)
    (rest : Demand (Except ReferenceError (List Issue))) :
    Demand (Except ReferenceError (List Issue)) :=
  first.andThen fun
    | .error cause => .done (.error cause)
    | .ok issues => rest.map fun more => do .ok (issues.map under ++ (← more))

/-- A traversal of a branch and of the branches after it, if the first one does not
fit. -/
def orElse (first : Demand (Except ReferenceError (List Issue)))
    (rest : Demand (Except ReferenceError Bool)) : Demand (Except ReferenceError Bool) :=
  first.andThen fun
    | .error cause => .done (.error cause)
    | .ok issues => if issues.isEmpty then .done (.ok true) else rest

end Demand

namespace Planted

mutual
/-- Walks through a validator at a place. -/
def walkThrough (set : Planted) (chain : List String) (place : Place) (v : Deferred)
    (slot : Slot) : Demand (Except ReferenceError (List Issue)) :=
  match v with
  | .object fields closed =>
    match slot with
    | some (.object members) =>
      (walkFieldsThrough set place 0 fields members).map fun outcome => do
        let issues ← outcome
        .ok (issues ++ if closed then unlisted (Deferred.fullFields fields) members else [])
    | slot => .done (.ok [Issue.here .object slot])
  | .array item =>
    match slot with
    | some (.array items) => walkItemsThrough set (place.child 0) item 0 items
    | slot => .done (.ok [Issue.here .array slot])
  | .record value =>
    match slot with
    | some (.object members) => walkMembersThrough set (place.child 0) value members
    | slot => .done (.ok [Issue.here .record slot])
  | .union branches =>
    (walkBranchesThrough set chain place 0 branches slot).map fun outcome => do
      let fits ← outcome
      .ok (checked fits (.oneBranchOf branches.length) slot)
  | .lazy _ source =>
    .force place source fun child _hbuilt => walkThrough set chain (place.child 0) child slot
  | .reference target owner registry =>
    if _hnew : target ∈ chain then .done (.ok [⟨[], .reference target, .referenceCycle⟩])
    else
      match _h : set.resolve registry target owner with
      | .error cause => .done (.error cause)
      | .ok entry => walkThrough set (target :: chain) (.ofEntry registry target) entry slot
  | .optional inner =>
    match slot with
    | none => .done (.ok [])
    | some x => walkThrough set chain (place.child 0) inner (some x)
  | leaf => .done (walk {} chain leaf.full slot)
termination_by (slot.size, freshAmong set.names chain, 2 * v.full.size)
decreasing_by
  · exact Prod.Lex.left _ _ (by simp [Slot.size, Value.size])
  · exact Prod.Lex.left _ _ (by simp [Slot.size, Value.size])
  · exact Prod.Lex.left _ _ (by simp [Slot.size, Value.size])
  · exact Prod.Lex.right _ (Prod.Lex.right _ (by
      simp only [Deferred.full, Validator.size]; omega))
  · subst _hbuilt
    exact Prod.Lex.right _ (Prod.Lex.right _ (by
      simp only [Deferred.full, Source.full_build, Validator.size]; omega))
  · exact Prod.Lex.right _ (Prod.Lex.left _ _ (freshAmong_cons_lt (mem_names_of_resolve _h) _hnew))
  · exact Prod.Lex.right _ (Prod.Lex.right _ (by
      simp only [Deferred.full, Validator.size]; omega))
/-- Walks through branches until one fits. -/
def walkBranchesThrough (set : Planted) (chain : List String) (place : Place) (position : Nat)
    (branches : List Deferred) (slot : Slot) : Demand (Except ReferenceError Bool) :=
  match branches with
  | [] => .done (.ok false)
  | branch :: rest =>
    (walkThrough set chain (place.child position) branch slot).orElse
      (walkBranchesThrough set chain place (position + 1) rest slot)
termination_by
  (slot.size, freshAmong set.names chain, 2 * Validator.sizeList (Deferred.fullList branches) + 1)
decreasing_by
  · exact Prod.Lex.right _ (Prod.Lex.right _ (by
      simp only [Deferred.fullList, Validator.sizeList]; omega))
  · exact Prod.Lex.right _ (Prod.Lex.right _ (by
      have := branch.full.size_pos
      simp only [Deferred.fullList, Validator.sizeList]
      omega))
/-- Walks through the listed fields. -/
def walkFieldsThrough (set : Planted) (place : Place) (position : Nat)
    (fields : List (String × Deferred)) (members : List (String × Value)) :
    Demand (Except ReferenceError (List Issue)) :=
  match fields with
  | [] => .done (.ok [])
  | (name, field) :: rest =>
    (walkThrough set [] (place.child position) field (Keyed.find? name members)).gather
      (Issue.under (.field name)) (walkFieldsThrough set place (position + 1) rest members)
termination_by
  (Value.sizeMembers members, set.names.length + 1,
    Validator.sizeFields (Deferred.fullFields fields))
decreasing_by
  · exact walk_descends (Slot.size_find?_le _ _) (Nat.lt_succ_of_le (freshAmong_le _ _))
  · exact Prod.Lex.right _ (Prod.Lex.right _ (by
      have := field.full.size_pos
      simp only [Deferred.fullFields, Validator.sizeFields]
      omega))
/-- Walks through the items of a sequence. -/
def walkItemsThrough (set : Planted) (place : Place) (item : Deferred) (position : Nat)
    (items : List Value) : Demand (Except ReferenceError (List Issue)) :=
  match items with
  | [] => .done (.ok [])
  | x :: rest =>
    (walkThrough set [] place item (some x)).gather (Issue.under (.index position))
      (walkItemsThrough set place item (position + 1) rest)
termination_by (Value.sizeItems items, set.names.length + 1, 0)
decreasing_by
  · exact walk_descends (by simp only [Slot.size, Value.sizeItems]; omega)
      (Nat.lt_succ_of_le (freshAmong_le _ _))
  · exact Prod.Lex.left _ _ (by
      have := x.size_pos
      simp only [Value.sizeItems]
      omega)
/-- Walks through the values of a record. -/
def walkMembersThrough (set : Planted) (place : Place) (value : Deferred)
    (members : List (String × Value)) : Demand (Except ReferenceError (List Issue)) :=
  match members with
  | [] => .done (.ok [])
  | (key, x) :: rest =>
    (walkThrough set [] place value (some x)).gather (Issue.under (.key key))
      (walkMembersThrough set place value rest)
termination_by (Value.sizeMembers members, set.names.length + 1, 0)
decreasing_by
  · exact walk_descends (by simp only [Slot.size, Value.sizeMembers]; omega)
      (Nat.lt_succ_of_le (freshAmong_le _ _))
  · exact Prod.Lex.left _ _ (by
      have := x.size_pos
      simp only [Value.sizeMembers]
      omega)
end

/-! ## Outcomes -/

/-- A set that stands on a shelf is what a planted set is once everything in it is
built. -/
structure Yields (planted : Planted) (shelf : Shelf) (set : CompiledSet) : Prop where
  stands : Stands shelf planted.registry set
  entries : set.entries = Keyed.mapValues (fun name v => Entry.of name v.full) planted.entries

namespace Yields

variable {planted : Planted} {shelf : Shelf} {set : CompiledSet}

/-- Both sets have the same names. -/
theorem names_eq (h : planted.Yields shelf set) : set.names = planted.names := by
  rw [CompiledSet.names, h.entries, Keyed.keys_mapValues, names]

/-- The entry of a name holds what is planted under it, with everything in it built. -/
theorem get?_eq (h : planted.Yields shelf set) (name : String) :
    set.get? name = (planted.get? name).map fun v => Entry.of name v.full := by
  rw [CompiledSet.get?, h.entries, Keyed.find?_mapValues, get?]

/-- The links of what is planted under a name go through the handle of the set. -/
theorem inward (h : planted.Yields shelf set) {name : String} {v : Deferred}
    (hv : planted.get? name = some v) : ∀ link ∈ v.full.links, link.registry = planted.registry :=
  h.stands.inward (show set.get? name = some (Entry.of name v.full) by rw [h.get?_eq, hv]; rfl)

end Yields

/-- Behind a handle a name leads nowhere on both sides, for the same reason, or on the
one side to what the entry on the other was before anything in it was built; and the
links of that entry stay behind the handle. -/
structure Mirrors (planted : Planted) (shelf : Shelf) (registry : Handle) : Prop where
  resolve_cases : ∀ target owner,
    (∃ cause, planted.resolve registry target owner = .error cause ∧
      shelf.resolve registry target owner = .error cause) ∨
    ∃ v entry, planted.resolve registry target owner = .ok v ∧
      shelf.resolve registry target owner = .ok entry ∧ v.full = entry.validator ∧
      ∀ link ∈ v.full.links, link.registry = registry

/-- A planted set mirrors the shelf on which the set stands that it yields. -/
theorem Yields.mirrors {planted : Planted} {shelf : Shelf} {set : CompiledSet}
    (h : planted.Yields shelf set) : planted.Mirrors shelf planted.registry where
  resolve_cases target owner := by
    rw [Planted.resolve, if_pos rfl, Shelf.resolve, h.stands.onShelf, ← h.names_eq]
    cases hv : planted.get? target with
    | none => exact .inl ⟨_, rfl, by simp only [h.get?_eq, hv, Option.map_none]⟩
    | some v =>
        have hentry : set.get? target = some (.of target v.full) := by
          rw [h.get?_eq, hv, Option.map_some]
        exact .inr ⟨v, .of target v.full, rfl, by simp only [hentry], rfl, h.inward hv⟩

end Planted

namespace Demand

theorem outcome_gather (first rest : Demand (Except ReferenceError (List Issue)))
    (under : Issue → Issue) :
    (first.gather under rest).outcome =
      ((do
        let issues ← first.outcome.1
        let more ← rest.outcome.1
        .ok (issues.map under ++ more)),
      first.outcome.2 ++ if goesOn first.outcome.1 then rest.outcome.2 else []) := by
  rw [gather, outcome_andThen]
  cases first.outcome.1 with
  | error cause => rfl
  | ok issues => simp [goesOn, bind, Except.bind]

theorem outcome_orElse (first : Demand (Except ReferenceError (List Issue)))
    (rest : Demand (Except ReferenceError Bool)) :
    (first.orElse rest).outcome =
      ((do
        let issues ← first.outcome.1
        if issues.isEmpty then .ok true else rest.outcome.1),
      first.outcome.2 ++ if leavesOpen first.outcome.1 then rest.outcome.2 else []) := by
  rw [orElse, outcome_andThen]
  cases first.outcome.1 with
  | error cause => rfl
  | ok issues => cases issues <;> simp [leavesOpen, bind, Except.bind]

end Demand

namespace Planted

section Outcomes

variable {planted : Planted} {shelf : Shelf} {registry : Handle}

/-- Whether the walk through a validator has the outcome that it should have. -/
def WalksAs (planted : Planted) (shelf : Shelf) (chain : List String) (v : Deferred)
    (slot : Slot) : Prop :=
  ∀ place, (planted.walkThrough chain place v slot).outcome =
    (walk shelf chain v.full slot, builtByWalk shelf chain place v.full slot)

theorem outcome_walkFieldsThrough {fields : List (String × Deferred)}
    {members : List (String × Value)}
    (h : ∀ field ∈ fields, planted.WalksAs shelf [] field.2 (Keyed.find? field.1 members))
    (place : Place) (position : Nat) :
    (planted.walkFieldsThrough place position fields members).outcome =
      (walkFields shelf (Deferred.fullFields fields) members,
        builtByFields shelf place position (Deferred.fullFields fields) members) := by
  induction fields generalizing position with
  | nil => rw [walkFieldsThrough, Deferred.fullFields, walkFields, builtByFields]; rfl
  | cons field rest ih =>
      obtain ⟨name, v⟩ := field
      rw [List.forall_mem_cons] at h
      rw [walkFieldsThrough, Demand.outcome_gather, h.1, ih h.2, Deferred.fullFields, walkFields,
        builtByFields]

theorem outcome_walkBranchesThrough {chain : List String} {branches : List Deferred} {slot : Slot}
    (h : ∀ branch ∈ branches, planted.WalksAs shelf chain branch slot)
    (place : Place) (position : Nat) :
    (planted.walkBranchesThrough chain place position branches slot).outcome =
      (walkBranches shelf chain (Deferred.fullList branches) slot,
        builtByBranches shelf chain place position (Deferred.fullList branches) slot) := by
  induction branches generalizing position with
  | nil => rw [walkBranchesThrough, Deferred.fullList, walkBranches, builtByBranches]; rfl
  | cons branch rest ih =>
      rw [List.forall_mem_cons] at h
      rw [walkBranchesThrough, Demand.outcome_orElse, h.1, ih h.2, Deferred.fullList, walkBranches,
        builtByBranches]

theorem outcome_walkItemsThrough {item : Deferred} {items : List Value}
    (h : ∀ x ∈ items, planted.WalksAs shelf [] item (some x)) (place : Place) (position : Nat) :
    (planted.walkItemsThrough place item position items).outcome =
      (walkItems shelf item.full position items,
        builtByItems shelf place item.full items) := by
  induction items generalizing position with
  | nil => rw [walkItemsThrough, walkItems, builtByItems]; rfl
  | cons x rest ih =>
      rw [List.forall_mem_cons] at h
      rw [walkItemsThrough, Demand.outcome_gather, h.1, ih h.2, walkItems, builtByItems]

theorem outcome_walkMembersThrough {value : Deferred} {members : List (String × Value)}
    (h : ∀ member ∈ members, planted.WalksAs shelf [] value (some member.2)) (place : Place) :
    (planted.walkMembersThrough place value members).outcome =
      (walkMembers shelf value.full members,
        builtByMembers shelf place value.full members) := by
  induction members with
  | nil => rw [walkMembersThrough, walkMembers, builtByMembers]; rfl
  | cons member rest ih =>
      rw [List.forall_mem_cons] at h
      rw [walkMembersThrough, Demand.outcome_gather, h.1, ih h.2, walkMembers, builtByMembers]

/-- A link that leads nowhere ends the walk. -/
theorem walkThrough_broken {chain : List String} {place : Place} {target owner : String}
    {slot : Slot} {cause : ReferenceError} (hnew : target ∉ chain)
    (h : planted.resolve registry target owner = .error cause) :
    planted.walkThrough chain place (.reference target owner registry) slot =
      .done (.error cause) := by
  rw [walkThrough, dif_neg hnew]
  split <;> simp_all

/-- A link is followed to the root of the entry that it names. -/
theorem walkThrough_follow {chain : List String} {place : Place} {target owner : String}
    {slot : Slot} {v : Deferred} (hnew : target ∉ chain)
    (h : planted.resolve registry target owner = .ok v) :
    planted.walkThrough chain place (.reference target owner registry) slot =
      planted.walkThrough (target :: chain) (.ofEntry registry target) v slot := by
  rw [walkThrough, dif_neg hnew]
  split <;> simp_all

/-- A leaf has nothing to ask for. -/
theorem walksAs_of_isLeaf {chain : List String} {v : Deferred} {slot : Slot}
    (hleaf : v.full.IsLeaf) : planted.WalksAs shelf chain v slot := by
  intro place
  have hwalk : walk {} chain v.full slot = walk shelf chain v.full slot :=
    walk_leaf_eq shelf {} chain slot hleaf
  rw [builtByWalk_leaf hleaf, ← hwalk]
  cases v with
  | object | array | record | union | lazy | reference | optional => exact hleaf.elim
  | _ =>
      rw [walkThrough]
      · rfl
      all_goals simp

/-- With everything built anew, a walk through a planted set has the outcome of the walk
on the shelf that the set mirrors, and asks for what that walk builds. -/
theorem Mirrors.walksAs (hmirrors : planted.Mirrors shelf registry) {chain : List String}
    {whole : Validator} {slot : Slot}
    (hinward : ∀ link ∈ whole.links, link.registry = registry) {v : Deferred}
    (hfull : v.full = whole) : planted.WalksAs shelf chain v slot := by
  induction chain, whole, slot using walk_induction shelf generalizing v with
  | leaf chain whole slot hleaf => exact walksAs_of_isLeaf (hfull ▸ hleaf)
  | object chain fields closed members ih =>
      obtain ⟨unbuilt, rfl, rfl⟩ := Deferred.origin_of_full_eq hfull
      intro place
      have hfields : ∀ field ∈ unbuilt,
          planted.WalksAs shelf [] field.2 (Keyed.find? field.1 members) := by
        intro field hfield
        have hmem : (field.1, field.2.full) ∈ Deferred.fullFields unbuilt := by
          rw [Deferred.fullFields_eq_map]
          exact List.mem_map_of_mem hfield
        exact ih _ hmem (fun link hlink =>
          hinward link (Validator.mem_linksOfFields.2 ⟨_, hmem, hlink⟩)) rfl
      rw [walkThrough, Demand.outcome_map, outcome_walkFieldsThrough hfields, Deferred.full, walk,
        builtByWalk]
  | noObject chain fields closed slot hother =>
      obtain ⟨unbuilt, rfl, rfl⟩ := Deferred.origin_of_full_eq hfull
      intro place
      rw [Deferred.full, walk_noObject hother, builtByWalk_noObject hother, walkThrough]
      · rfl
      · exact hother
  | array chain item items ih =>
      obtain ⟨unbuilt, rfl, rfl⟩ := Deferred.origin_of_full_eq hfull
      intro place
      rw [walkThrough, outcome_walkItemsThrough fun x hx => ih x hx hinward rfl, Deferred.full,
        walk, builtByWalk]
  | noArray chain item slot hother =>
      obtain ⟨unbuilt, rfl, rfl⟩ := Deferred.origin_of_full_eq hfull
      intro place
      rw [Deferred.full, walk_noArray hother, builtByWalk_noArray hother, walkThrough]
      · rfl
      · exact hother
  | record chain value members ih =>
      obtain ⟨unbuilt, rfl, rfl⟩ := Deferred.origin_of_full_eq hfull
      intro place
      rw [walkThrough, outcome_walkMembersThrough fun m hm => ih m hm hinward rfl, Deferred.full,
        walk, builtByWalk]
  | noRecord chain value slot hother =>
      obtain ⟨unbuilt, rfl, rfl⟩ := Deferred.origin_of_full_eq hfull
      intro place
      rw [Deferred.full, walk_noRecord hother, builtByWalk_noRecord hother, walkThrough]
      · rfl
      · exact hother
  | union chain branches slot ih =>
      obtain ⟨unbuilt, rfl, rfl⟩ := Deferred.origin_of_full_eq hfull
      intro place
      have hbranches : ∀ branch ∈ unbuilt, planted.WalksAs shelf chain branch slot := by
        intro branch hbranch
        have hmem : branch.full ∈ Deferred.fullList unbuilt := by
          rw [Deferred.fullList_eq_map]
          exact List.mem_map_of_mem hbranch
        exact ih _ hmem (fun link hlink =>
          hinward link (Validator.mem_linksOfList.2 ⟨_, hmem, hlink⟩)) rfl
      rw [walkThrough, Demand.outcome_map, outcome_walkBranchesThrough hbranches, Deferred.full,
        walk, builtByWalk, Deferred.length_fullList]
  | lazy chain label child slot ih =>
      obtain ⟨source, rfl, rfl⟩ := Deferred.origin_of_full_eq hfull
      intro place
      have hchild := ih hinward source.full_build (place.child 0)
      rw [walkThrough, Demand.outcome, hchild, Source.full_build, Deferred.full, walk, builtByWalk]
  | cycle chain target owner through slot hmet =>
      cases Deferred.origin_of_full_eq hfull
      intro place
      rw [walkThrough, dif_pos hmet, Deferred.full, walk_cycle hmet, builtByWalk_cycle hmet]
      rfl
  | broken chain target owner through slot cause hnew hbroken =>
      cases Deferred.origin_of_full_eq hfull
      intro place
      have hthrough : through = registry :=
        hinward ⟨target, owner, through⟩ (List.mem_singleton_self _)
      subst hthrough
      rcases hmirrors.resolve_cases target owner with ⟨_, hresolve, hsame⟩ | ⟨_, _, _, hsame, _⟩
      · rw [hbroken] at hsame
        cases hsame
        rw [walkThrough_broken hnew hresolve, Deferred.full, walk_broken hnew hbroken,
          builtByWalk_broken hnew hbroken]
        rfl
      · rw [hbroken] at hsame
        cases hsame
  | follow chain target owner through slot entry hnew hfollow ih =>
      cases Deferred.origin_of_full_eq hfull
      intro place
      have hthrough : through = registry :=
        hinward ⟨target, owner, through⟩ (List.mem_singleton_self _)
      subst hthrough
      rcases hmirrors.resolve_cases target owner with
        ⟨_, _, hsame⟩ | ⟨v, _, hresolve, hsame, hv, hinside⟩
      · rw [hfollow] at hsame
        cases hsame
      · rw [hfollow] at hsame
        cases hsame
        rw [walkThrough_follow hnew hresolve, ih (hv ▸ hinside) hv, hv, Deferred.full,
          walk_follow hnew hfollow, builtByWalk_follow hnew hfollow]
  | absent chain inner =>
      obtain ⟨unbuilt, rfl, rfl⟩ := Deferred.origin_of_full_eq hfull
      intro place
      rw [walkThrough, Deferred.full, walk, builtByWalk]
      rfl
  | present chain inner x ih =>
      obtain ⟨unbuilt, rfl, rfl⟩ := Deferred.origin_of_full_eq hfull
      intro place
      rw [walkThrough, ih hinward rfl, Deferred.full, walk, builtByWalk]

end Outcomes
end Planted
end SchemaSets
