import SchemaSets.Proofs.Absence
import SchemaSets.Proofs.Steps.Machine

/-!
# Searches for absence step by step

The search for absence as a machine.  A state holds the names that were
followed and the alternatives that are still to be looked at; a step looks at
one alternative.  A name is marked as followed when it is met for the first
time and never again, so no name is marked twice (`once_goes`).
-/

namespace SchemaSets.Searching

/-- A state of a search: the names followed and the alternatives left. -/
structure State where
  followed : List String
  stack : List Validator

/-- The search as a machine. -/
def machine (shelf : Shelf) : Machine State Bool where
  step
    | ⟨_, []⟩ => .inr false
    | ⟨_, .any :: _⟩ => .inr true
    | ⟨_, .optional _ :: _⟩ => .inr true
    | ⟨followed, .lazy _ child :: rest⟩ => .inl ⟨followed, child :: rest⟩
    | ⟨followed, .union branches :: rest⟩ => .inl ⟨followed, branches ++ rest⟩
    | ⟨followed, .reference target owner registry :: rest⟩ =>
      if target ∈ followed then .inl ⟨followed, rest⟩
      else
        match shelf.resolve registry target owner with
        | .error _ => .inl ⟨target :: followed, rest⟩
        | .ok entry => .inl ⟨target :: followed, entry.validator :: rest⟩
    | ⟨followed, _ :: rest⟩ => .inl ⟨followed, rest⟩

/-- Where the search for a validator starts. -/
def start (v : Validator) : State := ⟨[], [v]⟩

variable {shelf : Shelf}

/-- The machine finds out what the search finds out. -/
theorem ends_search (followed : List String) (stack : List Validator) :
    (machine shelf).Ends ⟨followed, stack⟩ (absenceSearch shelf followed stack) := by
  fun_induction absenceSearch shelf followed stack with
  | case1 followed => exact Machine.ends_of_step rfl
  | case2 followed rest => exact Machine.ends_of_step rfl
  | case3 followed inner rest => exact Machine.ends_of_step rfl
  | case4 followed label child rest ih => exact Machine.Reaches.ends (.single rfl) ih
  | case5 followed branches rest ih => exact Machine.Reaches.ends (.single rfl) ih
  | case6 followed target owner registry rest hmet ih =>
      have hgoes : (machine shelf).Goes ⟨followed, .reference target owner registry :: rest⟩
          ⟨followed, rest⟩ := by
        simp [Machine.Goes, machine, hmet]
      exact Machine.Reaches.ends (.single hgoes) ih
  | case7 followed target owner registry rest hnew cause hresolve ih =>
      have hgoes : (machine shelf).Goes ⟨followed, .reference target owner registry :: rest⟩
          ⟨target :: followed, rest⟩ := by
        simp [Machine.Goes, machine, hnew, hresolve]
      exact Machine.Reaches.ends (.single hgoes) ih
  | case8 followed target owner registry rest hnew entry hresolve ih =>
      have hgoes : (machine shelf).Goes ⟨followed, .reference target owner registry :: rest⟩
          ⟨target :: followed, entry.validator :: rest⟩ := by
        simp [Machine.Goes, machine, hnew, hresolve]
      exact Machine.Reaches.ends (.single hgoes) ih
  | case9 followed v rest hany hoptional hlazy hunion hreference ih =>
      have hgoes : (machine shelf).Goes ⟨followed, v :: rest⟩ ⟨followed, rest⟩ := by
        cases v with
        | any => exact absurd rfl hany
        | optional inner => exact absurd rfl (hoptional inner)
        | lazy label child => exact absurd rfl (hlazy label child)
        | union branches => exact absurd rfl (hunion branches)
        | reference target owner registry => exact absurd rfl (hreference target owner registry)
        | _ => rfl
      exact Machine.Reaches.ends (.single hgoes) ih

/-- The search for a validator ends with whether it may be absent. -/
theorem ends_start (shelf : Shelf) (v : Validator) :
    (machine shelf).Ends (start v) (v.mayBeAbsent shelf) :=
  ends_search [] [v]

/-- A step marks no name twice. -/
theorem once_goes {s s' : State} (hs : s.followed.Nodup) (h : (machine shelf).Goes s s') :
    s'.followed.Nodup := by
  obtain ⟨followed, stack⟩ := s
  cases stack with
  | nil => cases h
  | cons v rest =>
      cases v with
      | any | optional => cases h
      | reference target owner registry =>
          have hstep : (machine shelf).step ⟨followed, .reference target owner registry :: rest⟩ =
            .inl s' := h
          simp only [machine] at hstep
          split at hstep
          · cases hstep
            exact hs
          · next hnew =>
              have honce : (target :: followed).Nodup := List.nodup_cons.2 ⟨hnew, hs⟩
              split at hstep <;> cases hstep <;> exact honce
      | _ =>
          cases h
          exact hs

/-- No run follows a name twice. -/
theorem once_of_reaches {v : Validator} {s : State} (h : (machine shelf).Reaches (start v) s) :
    s.followed.Nodup := by
  induction h with
  | refl => exact List.nodup_nil
  | tail _ hgoes ih => exact once_goes ih hgoes

end SchemaSets.Searching
