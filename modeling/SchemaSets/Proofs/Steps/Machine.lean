import Mathlib.Logic.Relation

/-!
# Machines

A machine goes from state to state until a step ends with a result.  It is the
form in which a procedure is taken apart here: what a procedure holds while it
runs are the states, and that it comes to an end is a number of steps.  A whole run
keeps the states that were passed through, so that two runs can be compared.
-/

namespace SchemaSets

universe u v

/-- What a step makes of a state: another state, or a result. -/
structure Machine (State : Type u) (Result : Type v) where
  step : State → State ⊕ Result

namespace Machine

variable {State : Type u} {Result : Type v} {m : Machine State Result}
variable {s s' : State} {result : Result}

/-- A step goes on to another state. -/
def Goes (m : Machine State Result) (s s' : State) : Prop := m.step s = .inl s'

/-- The machine passes from a state to another in any number of steps. -/
abbrev Reaches (m : Machine State Result) : State → State → Prop :=
  Relation.ReflTransGen m.Goes

/-- The result of so many steps, if they end with one. -/
def run (m : Machine State Result) : Nat → State → Option Result
  | 0, _ => none
  | n + 1, s =>
    match m.step s with
    | .inl s' => m.run n s'
    | .inr result => some result

/-- The machine ends with a result after finitely many steps. -/
def Ends (m : Machine State Result) (s : State) (result : Result) : Prop :=
  ∃ n, m.run n s = some result

/-- The last step ends the run. -/
theorem ends_of_step (h : m.step s = .inr result) : m.Ends s result :=
  ⟨1, by simp only [run, h]⟩

/-- What is reached ends as the run does. -/
theorem Reaches.ends (h : m.Reaches s s') (hends : m.Ends s' result) : m.Ends s result := by
  induction h using Relation.ReflTransGen.head_induction_on with
  | refl => exact hends
  | head hgoes _ ih =>
      obtain ⟨n, hn⟩ := ih
      refine ⟨n + 1, ?_⟩
      rw [run, hgoes]
      exact hn

/-- No state ends with two results. -/
theorem Ends.unique {other : Result} (h : m.Ends s result) (hother : m.Ends s other) :
    result = other := by
  obtain ⟨n, hn⟩ := h
  obtain ⟨k, hk⟩ := hother
  induction n generalizing s k with
  | zero => cases hn
  | succ n ih =>
      cases k with
      | zero => cases hk
      | succ k =>
          rw [run] at hn hk
          cases hstep : m.step s with
          | inl s' =>
              rw [hstep] at hn hk
              exact ih hn k hk
          | inr ended =>
              rw [hstep] at hn hk
              exact Option.some.inj (hn.symm.trans hk)

/-! ## Whole runs -/

/-- A run of the machine, with the states that it passes through and its result. -/
inductive Runs (m : Machine State Result) : State → List State → Result → Prop
  | last {s : State} {result : Result} (ends : m.step s = .inr result) : Runs m s [s] result
  | next {s s' : State} {passed : List State} {result : Result} (goes : m.Goes s s')
      (rest : Runs m s' passed result) : Runs m s (s :: passed) result

/-- What ends has a run. -/
theorem Ends.exists_runs (h : m.Ends s result) : ∃ passed, m.Runs s passed result := by
  obtain ⟨n, hn⟩ := h
  induction n generalizing s with
  | zero => cases hn
  | succ n ih =>
      rw [run] at hn
      cases hstep : m.step s with
      | inl s' =>
          rw [hstep] at hn
          obtain ⟨passed, hpassed⟩ := ih hn
          exact ⟨s :: passed, .next hstep hpassed⟩
      | inr ended =>
          rw [hstep] at hn
          cases hn
          exact ⟨[s], .last hstep⟩

end Machine
end SchemaSets
