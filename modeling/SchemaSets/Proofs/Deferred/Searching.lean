import SchemaSets.Proofs.Deferred.Walking

/-!
# Searches for absence that ask for children

The search takes alternatives from a stack as `absenceSearch` does, and asks for the
child of each lazy node that it takes.  With everything built anew it has the answer
of that search, and it asks for what that search is said to build
(`outcome_searchThrough`).
-/

namespace SchemaSets

/-- A validator at its place, its lazy nodes not built. -/
structure Sprout where
  place : Place
  validator : Deferred

/-- The same with everything in it built. -/
def Sprout.full (sprout : Sprout) : Located := ⟨sprout.place, sprout.validator.full⟩

/-- The validators of a list as the children of a place, counted from `position` on. -/
def Place.sprouts (place : Place) : Nat → List Deferred → List Sprout
  | _, [] => []
  | position, v :: rest => ⟨place.child position, v⟩ :: place.sprouts (position + 1) rest

/-- Children are at the same places with everything in them built. -/
theorem Place.map_full_sprouts (place : Place) (position : Nat) (vs : List Deferred) :
    (place.sprouts position vs).map Sprout.full =
      place.children position (Deferred.fullList vs) := by
  induction vs generalizing position with
  | nil => rfl
  | cons v vs ih => exact congrArg (_ :: ·) (ih (position + 1))

/-- The validators of children with everything in them built. -/
theorem Place.map_validator_sprouts (place : Place) (position : Nat) (vs : List Deferred) :
    ((place.sprouts position vs).map fun sprout => sprout.validator.full) =
      Deferred.fullList vs := by
  have h := congrArg (List.map Located.validator) (place.map_full_sprouts position vs)
  rwa [List.map_map, Place.map_validator_children] at h

namespace Planted

/-- The number of nodes on a stack with everything built. -/
def sizeOfStack (stack : List Sprout) : Nat := Located.sizeList (stack.map Sprout.full)

/-- Whether an alternative of the stack fits an empty slot. -/
def searchThrough (set : Planted) (followed : List String) (stack : List Sprout) : Demand Bool :=
  match stack with
  | [] => .done false
  | ⟨_, .any⟩ :: _ => .done true
  | ⟨_, .optional _⟩ :: _ => .done true
  | ⟨place, .lazy _ source⟩ :: rest =>
    .force place source fun child _hbuilt =>
      searchThrough set followed (⟨place.child 0, child⟩ :: rest)
  | ⟨place, .union branches⟩ :: rest =>
    searchThrough set followed (place.sprouts 0 branches ++ rest)
  | ⟨_, .reference target owner registry⟩ :: rest =>
    if _hnew : target ∈ followed then searchThrough set followed rest
    else
      match _h : set.resolve registry target owner with
      | .error _ => searchThrough set (target :: followed) rest
      | .ok v => searchThrough set (target :: followed) (⟨.ofEntry registry target, v⟩ :: rest)
  | _ :: rest => searchThrough set followed rest
termination_by (freshAmong set.names followed, sizeOfStack stack)
decreasing_by
  · subst _hbuilt
    exact Prod.Lex.right _ (by
      simp only [sizeOfStack, Located.sizeList, List.map_cons, Sprout.full, Deferred.full,
        Source.full_build, Validator.sizeList, Validator.size]
      omega)
  · exact Prod.Lex.right _ (by
      simp only [sizeOfStack, Located.sizeList, List.map_cons, List.map_append,
        Place.map_full_sprouts, Place.map_validator_children, Sprout.full, Deferred.full,
        Validator.sizeList, Validator.size, Validator.sizeList_append]
      omega)
  · exact Prod.Lex.right _ (by
      simp only [sizeOfStack, Located.sizeList, List.map_cons, Sprout.full, Deferred.full,
        Validator.sizeList, Validator.size]
      omega)
  · rcases Nat.lt_or_eq_of_le (freshAmong_cons_le set.names target followed) with h | h
    · exact Prod.Lex.left _ _ h
    · rw [h]
      exact Prod.Lex.right _ (by
        simp only [sizeOfStack, Located.sizeList, List.map_cons, Sprout.full, Deferred.full,
          Validator.sizeList, Validator.size]
        omega)
  · exact Prod.Lex.left _ _ (freshAmong_cons_lt (mem_names_of_resolve _h) _hnew)
  · exact Prod.Lex.right _ (by
      have := Validator.size_pos (Deferred.full (Sprout.validator ‹_›))
      simp only [sizeOfStack, Located.sizeList, List.map_cons, Sprout.full, Validator.sizeList]
      omega)

/-- Whether a slot that holds nothing may fit. -/
def absenceThrough (set : Planted) (sprout : Sprout) : Demand Bool := set.searchThrough [] [sprout]

/-- With everything built anew, a search through a planted set has the answer of the
search on the shelf that the set mirrors, and asks for what that search builds. -/
theorem Mirrors.outcome_searchThrough {planted : Planted} {shelf : Shelf} {registry : Handle}
    (hmirrors : planted.Mirrors shelf registry) {followed : List String} {stack : List Sprout}
    (hinward : ∀ sprout ∈ stack, ∀ link ∈ sprout.validator.full.links,
      link.registry = registry) :
    (planted.searchThrough followed stack).outcome =
      (absenceSearch shelf followed (stack.map fun sprout => sprout.validator.full),
        builtBySearch shelf followed (stack.map Sprout.full)) := by
  fun_induction searchThrough planted followed stack with
  | case1 followed =>
      rw [List.map_nil, List.map_nil, absenceSearch, builtBySearch]
      rfl
  | case2 followed place rest =>
      rw [List.map_cons, List.map_cons, Sprout.full, Deferred.full, absenceSearch, builtBySearch]
      rfl
  | case3 followed place inner rest =>
      rw [List.map_cons, List.map_cons, Sprout.full, Deferred.full, absenceSearch, builtBySearch]
      rfl
  | case4 followed place label source rest ih =>
      obtain ⟨hlazy, hrest⟩ := List.forall_mem_cons.1 hinward
      have hchild := ih source.build rfl (List.forall_mem_cons.2 ⟨by
        rw [Source.full_build]
        exact hlazy, hrest⟩)
      rw [List.map_cons, List.map_cons, Sprout.full, Source.full_build] at hchild
      rw [Demand.outcome, hchild, List.map_cons, List.map_cons, Sprout.full, Deferred.full,
        absenceSearch, builtBySearch]
  | case5 followed place branches rest ih =>
      obtain ⟨hunion, hrest⟩ := List.forall_mem_cons.1 hinward
      have hbranches : ∀ sprout ∈ place.sprouts 0 branches, ∀ link ∈ sprout.validator.full.links,
          link.registry = registry := by
        intro sprout hsprout link hlink
        have hmem := List.mem_map_of_mem (f := fun sprout => sprout.validator.full) hsprout
        rw [Place.map_validator_sprouts] at hmem
        exact hunion link (Validator.mem_linksOfList.2 ⟨_, hmem, hlink⟩)
      rw [ih (List.forall_mem_append.2 ⟨hbranches, hrest⟩), List.map_append, List.map_append,
        Place.map_full_sprouts, Place.map_validator_sprouts, List.map_cons, List.map_cons,
        Sprout.full, Deferred.full, absenceSearch, builtBySearch]
  | case6 followed place target owner through rest hmet ih =>
      rw [ih (List.forall_mem_cons.1 hinward).2, List.map_cons, List.map_cons, Sprout.full,
        Deferred.full, absenceSearch, builtBySearch, dif_pos hmet, dif_pos hmet]
  | case7 followed place target owner through rest hnew cause hresolve ih =>
      obtain ⟨hreference, hrest⟩ := List.forall_mem_cons.1 hinward
      have hthrough : through = registry :=
        hreference ⟨target, owner, through⟩ (List.mem_singleton_self _)
      subst hthrough
      rcases hmirrors.resolve_cases target owner with ⟨_, hsame, hbroken⟩ | ⟨_, _, hsame, _⟩
      · rw [ih hrest, List.map_cons, List.map_cons, Sprout.full, Deferred.full,
          absenceSearch_broken hnew hbroken, builtBySearch_broken hnew hbroken]
      · rw [hresolve] at hsame
        cases hsame
  | case8 followed place target owner through rest hnew v hresolve ih =>
      obtain ⟨hreference, hrest⟩ := List.forall_mem_cons.1 hinward
      have hthrough : through = registry :=
        hreference ⟨target, owner, through⟩ (List.mem_singleton_self _)
      subst hthrough
      rcases hmirrors.resolve_cases target owner with
        ⟨_, hsame, _⟩ | ⟨_, entry, hsame, hfollow, hv, hinside⟩
      · rw [hresolve] at hsame
        cases hsame
      · rw [hresolve] at hsame
        cases hsame
        rw [ih (List.forall_mem_cons.2 ⟨hinside, hrest⟩), List.map_cons, List.map_cons,
          List.map_cons, List.map_cons, Sprout.full, Sprout.full, Deferred.full,
          absenceSearch_follow hnew hfollow, builtBySearch_follow hnew hfollow, hv]
        rfl
  | case9 followed sprout rest hany hoptional hlazy hunion hreference ih =>
      obtain ⟨place, v⟩ := sprout
      rw [ih (List.forall_mem_cons.1 hinward).2, List.map_cons, List.map_cons, Sprout.full]
      cases v with
      | any => exact absurd rfl (hany place)
      | optional inner => exact absurd rfl (hoptional place inner)
      | lazy label source => exact absurd rfl (hlazy place label source)
      | union branches => exact absurd rfl (hunion place branches)
      | reference target owner through => exact absurd rfl (hreference place target owner through)
      | function args returns =>
          cases returns <;> rw [Deferred.full, absenceSearch, builtBySearch] <;> simp
      | _ => rw [Deferred.full, absenceSearch, builtBySearch] <;> simp

/-- The question of absence has the answer that it has of the validator. -/
theorem Mirrors.outcome_absenceThrough {planted : Planted} {shelf : Shelf} {registry : Handle}
    (hmirrors : planted.Mirrors shelf registry) {place : Place} {whole : Validator}
    (hinward : ∀ link ∈ whole.links, link.registry = registry) {v : Deferred}
    (hfull : v.full = whole) :
    (planted.absenceThrough ⟨place, v⟩).outcome =
      (whole.mayBeAbsent shelf, (Located.mk place whole).builtByAbsence shelf) := by
  subst hfull
  exact hmirrors.outcome_searchThrough (List.forall_mem_singleton.2 hinward)

end Planted
end SchemaSets
