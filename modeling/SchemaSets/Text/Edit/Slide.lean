import SchemaSets.Text.Edit.Basic

/-!
# Putting a script in order

The runs of a script can often stand elsewhere without changing what it starts
from or leads to.  To settle the runs of a kind, each is taken in turn, from the
first on.  It climbs as far up as it can and then sinks as far down as it can.
On its way it changes places with runs of the other kind and unites with those
of its own.  A run of insertions also passes a kept item that equals its last
item (going up) or its first one (going down): it is then one item further, and
its own items have turned by one.

A `Place` is a run with what stands above it, nearest first, and what stands
below it.
-/

namespace SchemaSets.Text.Edit

variable {α : Type}

/-- A run within a script. -/
structure Place (α : Type) where
  above : List (Edit α)
  items : List α
  below : List (Edit α)

/-- The script around a run. -/
def Place.script (kind : Change) (place : Place α) : List (Edit α) :=
  place.above.reverse ++ .change kind place.items :: place.below

/-- Whether a run passes a kept item that is the one at its edge. -/
def passes [DecidableEq α] (kind : Change) (edge : Option α) (kept : α) : Bool :=
  kind = .insertion && edge = some kept

/-- A run as far up as it goes. -/
def climb [DecidableEq α] (kind : Change) :
    List (Edit α) → List α → List (Edit α) → Place α
  | [], items, below => ⟨[], items, below⟩
  | .keep x :: above, items, below =>
    if passes kind items.getLast? x then climb kind above (x :: items.dropLast) (.keep x :: below)
    else ⟨.keep x :: above, items, below⟩
  | .change other others :: above, items, below =>
    if other = kind then climb kind above (others ++ items) below
    else climb kind above items (.change other others :: below)

/-- A run as far down as it goes. -/
def sink [DecidableEq α] (kind : Change) :
    List (Edit α) → List α → List (Edit α) → Place α
  | above, items, [] => ⟨above, items, []⟩
  | above, items, .keep x :: below =>
    if passes kind items.head? x then sink kind (.keep x :: above) (items.tail ++ [x]) below
    else ⟨above, items, .keep x :: below⟩
  | above, items, .change other others :: below =>
    if other = kind then sink kind above (items ++ others) below
    else sink kind (.change other others :: above) items below

/-- How many runs of a kind a script has. -/
def runs (kind : Change) (script : List (Edit α)) : Nat := script.countP (isChange kind)

theorem runs_cons_keep (kind : Change) (x : α) (script : List (Edit α)) :
    runs kind (.keep x :: script) = runs kind script := by
  simp [runs, isChange]

theorem runs_cons_change (kind other : Change) (items : List α) (script : List (Edit α)) :
    runs kind (.change other items :: script) =
      if other = kind then runs kind script + 1 else runs kind script := by
  by_cases h : other = kind <;> simp [runs, isChange, h]

/-- Climbing puts no run of the kind below. -/
theorem runs_climb [DecidableEq α] (kind : Change) (above : List (Edit α)) (items : List α)
    (below : List (Edit α)) : runs kind (climb kind above items below).below = runs kind below := by
  fun_induction climb kind above items below with
  | case1 => rfl
  | case2 x above items below h ih => rw [ih, runs_cons_keep]
  | case3 => rfl
  | case4 above items below others ih => exact ih
  | case5 kind' others above items below h ih => rw [ih, runs_cons_change, if_neg h]

/-- Sinking leaves no more runs of the kind below. -/
theorem runs_sink [DecidableEq α] (kind : Change) (above : List (Edit α)) (items : List α)
    (below : List (Edit α)) : runs kind (sink kind above items below).below ≤ runs kind below := by
  fun_induction sink kind above items below with
  | case1 => exact Nat.le_refl _
  | case2 above items x below h ih =>
    rw [runs_cons_keep]
    exact ih
  | case3 => exact Nat.le_refl _
  | case4 above items others below ih =>
    rw [runs_cons_change, if_pos rfl]
    exact Nat.le_succ_of_le ih
  | case5 above items kind' others below h ih =>
    rw [runs_cons_change, if_neg h]
    exact ih

/-- A run passes a kept item at its end without a change to either side. -/
theorem onSide_climb_keep [DecidableEq α] {kind : Change} {items : List α} {x : α}
    (h : passes kind items.getLast? x) (other : Change) :
    x :: onSide other (.change kind items) =
      onSide other (.change kind (x :: items.dropLast)) ++ [x] := by
  obtain ⟨rfl, hlast⟩ : kind = .insertion ∧ items.getLast? = some x := by simpa [passes] using h
  obtain ⟨init, rfl⟩ := List.getLast?_eq_some_iff.1 hlast
  cases other <;> simp [onSide]

/-- A run passes a kept item at its start without a change to either side. -/
theorem onSide_sink_keep [DecidableEq α] {kind : Change} {items : List α} {x : α}
    (h : passes kind items.head? x) (other : Change) :
    onSide other (.change kind items) ++ [x] =
      x :: onSide other (.change kind (items.tail ++ [x])) := by
  obtain ⟨rfl, hhead⟩ : kind = .insertion ∧ items.head? = some x := by simpa [passes] using h
  obtain ⟨rest, rfl⟩ := List.head?_eq_some_iff.1 hhead
  cases other <;> simp [onSide]

/-- Runs of different kinds change places without a change to either side. -/
theorem onSide_comm {kind kind' : Change} (h : kind' ≠ kind) (items others : List α)
    (side : Change) :
    onSide side (.change kind' others) ++ onSide side (.change kind items) =
      onSide side (.change kind items) ++ onSide side (.change kind' others) := by
  cases kind <;> cases kind' <;> cases side <;> simp_all [onSide]

/-- Runs of one kind unite without a change to either side. -/
theorem onSide_append (kind : Change) (items others : List α) (side : Change) :
    onSide side (.change kind (items ++ others)) =
      onSide side (.change kind items) ++ onSide side (.change kind others) := by
  cases kind <;> cases side <;> simp [onSide]

/-- A side of a script is what stands above a run, the run, and what stands
below it. -/
theorem side_script (kind other : Change) (place : Place α) :
    side other (place.script kind) =
      side other place.above.reverse ++
        (onSide other (.change kind place.items) ++ side other place.below) := by
  simp [Place.script]

/-- Climbing changes neither side of a script. -/
theorem side_climb [DecidableEq α] (kind other : Change) (above : List (Edit α))
    (items : List α) (below : List (Edit α)) :
    side other ((climb kind above items below).script kind) =
      side other (Place.script kind ⟨above, items, below⟩) := by
  fun_induction climb kind above items below with
  | case1 => rfl
  | case2 x above items below h ih =>
    have hpass := congrArg (· ++ side other below) (onSide_climb_keep h other)
    simp_all [side_script, onSide]
  | case3 => rfl
  | case4 above items below others ih => simp [ih, side_script, onSide_append]
  | case5 kind' others above items below h ih =>
    have hswap := congrArg (· ++ side other below) (onSide_comm h items others other)
    simp_all [side_script]

/-- Sinking changes neither side of a script. -/
theorem side_sink [DecidableEq α] (kind other : Change) (above : List (Edit α))
    (items : List α) (below : List (Edit α)) :
    side other ((sink kind above items below).script kind) =
      side other (Place.script kind ⟨above, items, below⟩) := by
  fun_induction sink kind above items below with
  | case1 => rfl
  | case2 above items x below h ih =>
    have hpass := congrArg (· ++ side other below) (onSide_sink_keep h other)
    simp_all [side_script, onSide]
  | case3 => rfl
  | case4 above items others below ih => simp [ih, side_script, onSide_append]
  | case5 above items kind' others below h ih =>
    have hswap := congrArg (· ++ side other below) (onSide_comm h items others other)
    simp_all [side_script]

/-- A run at the place where it settles. -/
def settled [DecidableEq α] (kind : Change) (above : List (Edit α)) (items : List α)
    (below : List (Edit α)) : Place α :=
  let top := climb kind above items below
  sink kind top.above top.items top.below

/-- Settles the runs of a kind below a point of a script. -/
def settleBelow [DecidableEq α] (kind : Change) (above below : List (Edit α)) :
    List (Edit α) :=
  match below with
  | [] => above.reverse
  | .keep x :: below => settleBelow kind (.keep x :: above) below
  | .change other items :: below =>
    if other = kind then
      let place := settled kind above items below
      settleBelow kind (.change kind place.items :: place.above) place.below
    else settleBelow kind (.change other items :: above) below
termination_by (runs kind below, below.length)
decreasing_by
  · rw [runs_cons_keep]
    exact Prod.Lex.right _ (Nat.lt_succ_self _)
  · refine Prod.Lex.left _ _ ?_
    have hsink := runs_sink kind (climb kind above items below).above
      (climb kind above items below).items (climb kind above items below).below
    rw [runs_climb] at hsink
    rw [runs_cons_change, if_pos ‹other = kind›]
    exact Nat.lt_succ_of_le hsink
  · rw [runs_cons_change, if_neg ‹¬other = kind›]
    exact Prod.Lex.right _ (Nat.lt_succ_self _)

/-- Settles the runs of a kind. -/
def settle [DecidableEq α] (kind : Change) (script : List (Edit α)) : List (Edit α) :=
  settleBelow kind [] script

/-- Settling runs below a point changes neither side of a script. -/
theorem side_settleBelow [DecidableEq α] (kind other : Change) (above below : List (Edit α)) :
    side other (settleBelow kind above below) = side other (above.reverse ++ below) := by
  fun_induction settleBelow kind above below with
  | case1 => simp
  | case2 above x below ih => simp [ih]
  | case3 above items below place ih =>
    have hsink := side_sink kind other (climb kind above items below).above
      (climb kind above items below).items (climb kind above items below).below
    have hclimb := side_climb kind other above items below
    have hplace : side other (place.script kind) =
        side other (Place.script kind ⟨above, items, below⟩) := hsink.trans hclimb
    simpa [side_script] using ih.trans (by simpa [side_script] using hplace)
  | case4 above kind' items below h ih => simp [ih]

/-- Settling changes neither side of a script. -/
@[simp] theorem side_settle [DecidableEq α] (kind other : Change) (script : List (Edit α)) :
    side other (settle kind script) = side other script := by
  simp [settle, side_settleBelow]

end SchemaSets.Text.Edit
