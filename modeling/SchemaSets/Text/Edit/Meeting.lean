/-!
# Where two searches meet

To turn one sequence into another with few edits, two searches run towards each
other, one from each end.  Each gets as far as it can along every diagonal, with
a growing number of edits.  Where they first meet, the sequences are best
parted.
-/

namespace SchemaSets.Text.Edit

variable {α : Type}

/-- How far a search got on every diagonal.  The diagonal of a point is its
place in the first sequence less its place in the second. -/
structure Frontier where
  reached : Array Nat
  origin : Nat

namespace Frontier

/-- The frontier before the first step, with room for diagonals up to `room`. -/
def start (room : Nat) : Frontier := ⟨Array.replicate (2 * room + 1) 0, room⟩

/-- How far the search got on a diagonal. -/
def get (f : Frontier) (diagonal : Int) : Nat :=
  f.reached.getD (diagonal + f.origin).toNat 0

/-- The frontier after the search got to a point of a diagonal. -/
def set (f : Frontier) (diagonal : Int) (place : Nat) : Frontier :=
  { f with reached := f.reached.setIfInBounds (diagonal + f.origin).toNat place }

/-- Where the next edit leads to on a diagonal, in round `d`: past an item of
the second sequence if the diagonal above got further, else past one of the
first. -/
def step (f : Frontier) (d diagonal : Int) : Nat :=
  if diagonal = -d ∨ (diagonal ≠ d ∧ f.get (diagonal - 1) < f.get (diagonal + 1)) then
    f.get (diagonal + 1)
  else f.get (diagonal - 1) + 1

end Frontier

/-- How many items two sequences have in common at their start. -/
def commonLength [DecidableEq α] : List α → List α → Nat
  | x :: xs, y :: ys => if x = y then commonLength xs ys + 1 else 0
  | _, _ => 0

/-- How many items two sequences have in common from given places on. -/
def commonFrom [DecidableEq α] (xs ys : List α) (x : Nat) (y : Int) : Nat :=
  if x < xs.length ∧ 0 ≤ y ∧ y < ys.length then
    commonLength (xs.drop x) (ys.drop y.toNat)
  else 0

/-- The diagonals of round `d`, from the highest down. -/
def diagonals (d : Nat) : List Int := (List.range (d + 1)).map fun (i : Nat) => (d : Int) - 2 * i

/-- One round of a search.  `other` is the search from the other end; the round
stops with the point where the two meet, given as the point before and the
point after the items that were found in common. -/
def sweep [DecidableEq α] (xs ys : List α) (other : Frontier) (d : Nat)
    (touches : Int → Bool) (mine : Frontier) :
    Except ((Nat × Int) × (Nat × Int)) Frontier :=
  (diagonals d).foldlM
    (fun f k =>
      let x := f.step d k
      let y := (x : Int) - k
      let common := commonFrom xs ys x y
      if touches k ∧ xs.length ≤ x + common + other.get (xs.length - ys.length - k) then
        .error ((x, y), (x + common, y + common))
      else .ok (f.set k (x + common)))
    mine

/-- The point at which two sequences are best parted. -/
def meetingPoint [DecidableEq α] (xs ys : List α) : Option (Nat × Nat) :=
  let delta : Int := xs.length - ys.length
  let isOdd : Bool := delta % 2 ≠ 0
  let rounds := (xs.length + ys.length + 1) / 2
  let xsBack := xs.reverse
  let ysBack := ys.reverse
  let outcome : Except (Nat × Nat) (Frontier × Frontier) :=
    (List.range (rounds + 1)).foldlM
      (fun (fronts : Frontier × Frontier) d =>
        match sweep xs ys fronts.2 d (fun k => isOdd && (k - delta).natAbs + 1 ≤ d) fronts.1 with
        | .error ((x, y), _) => .error (x, y.toNat)
        | .ok forth =>
          match sweep xsBack ysBack forth d (fun k => !isOdd && (k - delta).natAbs ≤ d)
              fronts.2 with
          | .error (_, (x, y)) => .error (xs.length - x, ys.length - y.toNat)
          | .ok back => .ok (forth, back))
      (Frontier.start (rounds + 1), Frontier.start (rounds + 1))
  match outcome with
  | .error point => some point
  | .ok _ => none

end SchemaSets.Text.Edit
