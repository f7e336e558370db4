import SchemaSets.Text.Edit.Meeting
import SchemaSets.Text.Edit.Slide

/-!
# Scripts with few edits

What two sequences have in common at either end is kept.  What is left between
is parted where two searches meet, and both halves are treated in the same way,
until one of them is empty.  Each remainder becomes a run of its own.  In the
end the runs are settled, deletions before insertions.

Main statements: a script starts from the first sequence (`before_script`) and
leads to the second (`after_script`).
-/

namespace SchemaSets.Text.Edit

variable {α : Type} [DecidableEq α]

/-- Keeps what two sequences have in common at their start, and goes on with
`rest`. -/
def keepStart (rest : List α → List α → List (Edit α)) : List α → List α → List (Edit α)
  | x :: xs, y :: ys =>
    if x = y then .keep x :: keepStart rest xs ys else rest (x :: xs) (y :: ys)
  | xs, ys => rest xs ys

/-- Keeps what two sequences have in common at their end, and treats what stands
before it with `rest`. -/
def keepEnd (rest : List α → List α → List (Edit α)) (xs ys : List α) : List (Edit α) :=
  let kept := commonLength xs.reverse ys.reverse
  rest (xs.take (xs.length - kept)) (ys.take (ys.length - kept)) ++
    (xs.drop (xs.length - kept)).map .keep

/-- Parts two sequences where they meet and treats both halves with `rest`.  If
one of them is empty or they do not meet, the other replaces it. -/
def halve (rest : List α → List α → List (Edit α)) (xs ys : List α) : List (Edit α) :=
  if xs.isEmpty || ys.isEmpty then replace xs ys
  else
    match meetingPoint xs ys with
    | some (x, y) => rest (xs.take x) (ys.take y) ++ rest (xs.drop x) (ys.drop y)
    | none => replace xs ys

/-- The script of two sequences; `fuel` bounds how often they are parted. -/
def parted : Nat → List α → List α → List (Edit α)
  | 0 => replace
  | fuel + 1 => keepStart (keepEnd (halve (parted fuel)))

/-- A script from one sequence to another. -/
def script (xs ys : List α) : List (Edit α) :=
  settle .insertion (settle .deletion (parted (xs.length + ys.length) xs ys))

/-! ## What a script says -/

/-- What two sequences have in common at their start is the same in both. -/
theorem take_commonLength (xs ys : List α) :
    xs.take (commonLength xs ys) = ys.take (commonLength xs ys) := by
  fun_induction commonLength xs ys <;> simp_all

/-- What two sequences have in common at their end is the same in both. -/
theorem drop_commonLength_reverse (xs ys : List α) :
    xs.drop (xs.length - commonLength xs.reverse ys.reverse) =
      ys.drop (ys.length - commonLength xs.reverse ys.reverse) := by
  have h := congrArg List.reverse (take_commonLength xs.reverse ys.reverse)
  simpa [List.take_reverse] using h

/-- Whether a function makes scripts from one sequence to another. -/
def Leads (f : List α → List α → List (Edit α)) : Prop :=
  ∀ xs ys, side .deletion (f xs ys) = xs ∧ side .insertion (f xs ys) = ys

omit [DecidableEq α] in
theorem leads_replace : Leads (α := α) replace := fun xs ys =>
  ⟨side_replace_deletion xs ys, side_replace_insertion xs ys⟩

theorem leads_keepStart {rest : List α → List α → List (Edit α)} (h : Leads rest) :
    Leads (keepStart rest) := by
  intro xs ys
  fun_induction keepStart rest xs ys with
  | case1 y xs ys ih => simp [onSide, ih]
  | case2 x xs y ys => exact h _ _
  | case3 xs ys => exact h _ _

theorem leads_keepEnd {rest : List α → List α → List (Edit α)} (h : Leads rest) :
    Leads (keepEnd rest) := by
  intro xs ys
  have hend := drop_commonLength_reverse xs ys
  simp only [keepEnd, side_append, side_map_keep, (h _ _).1, (h _ _).2]
  constructor
  · simp
  · rw [hend]
    simp

theorem leads_halve {rest : List α → List α → List (Edit α)} (h : Leads rest) :
    Leads (halve rest) := by
  intro xs ys
  unfold halve
  split
  · exact leads_replace xs ys
  · split
    · simp [(h _ _).1, (h _ _).2]
    · exact leads_replace xs ys

theorem leads_parted (fuel : Nat) : Leads (α := α) (parted fuel) := by
  induction fuel with
  | zero => exact leads_replace
  | succ fuel ih => exact leads_keepStart (leads_keepEnd (leads_halve ih))

/-- A script starts from the first sequence. -/
theorem before_script (xs ys : List α) : before (script xs ys) = xs := by
  simp [before, script, (leads_parted _ xs ys).1]

/-- A script leads to the second sequence. -/
theorem after_script (xs ys : List α) : after (script xs ys) = ys := by
  simp [after, script, (leads_parted _ xs ys).2]

end SchemaSets.Text.Edit
