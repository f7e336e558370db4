/-!
# Edit scripts

A script turns one sequence into another: it keeps items, deletes items of the
first and inserts items of the second.  Deleted and inserted items come in
runs, and how they are grouped matters to what moves as one when a script is
put in order; two runs of one kind may follow one another.

Both sequences can be read off a script.  The first is its side of deletions,
the second its side of insertions: the kept items, and those of the runs of
that kind.
-/

namespace SchemaSets.Text

/-- The two kinds of change. -/
inductive Change
  | deletion
  | insertion
deriving DecidableEq, Repr

/-- A step of a script: an item that both sequences have, or a run of items
that only one of them has. -/
inductive Edit (α : Type)
  | keep (item : α)
  | change (kind : Change) (items : List α)
deriving DecidableEq, Repr

namespace Edit

variable {α : Type}

/-- Whether a step is a run of a kind. -/
def isChange (kind : Change) : Edit α → Bool
  | .keep _ => false
  | .change other _ => other = kind

/-- The items of a step on one side. -/
def onSide (kind : Change) : Edit α → List α
  | .keep x => [x]
  | .change other items => if other = kind then items else []

/-- The sequence on one side of a script. -/
def side (kind : Change) (script : List (Edit α)) : List α := script.flatMap (onSide kind)

/-- The sequence that a script starts from. -/
def before (script : List (Edit α)) : List α := side .deletion script

/-- The sequence that a script leads to. -/
def after (script : List (Edit α)) : List α := side .insertion script

/-- The items of the runs of a kind. -/
def changed (kind : Change) : List (Edit α) → List α
  | [] => []
  | .keep _ :: rest => changed kind rest
  | .change other items :: rest =>
    if other = kind then items ++ changed kind rest else changed kind rest

/-- A run, unless it is empty. -/
def run (kind : Change) (items : List α) : List (Edit α) :=
  if items.isEmpty then [] else [.change kind items]

/-- The script that replaces one sequence by another as a whole. -/
def replace (xs ys : List α) : List (Edit α) := run .deletion xs ++ run .insertion ys

@[simp] theorem side_nil (kind : Change) : side kind ([] : List (Edit α)) = [] := rfl

@[simp] theorem side_cons (kind : Change) (e : Edit α) (s : List (Edit α)) :
    side kind (e :: s) = onSide kind e ++ side kind s := rfl

@[simp] theorem side_append (kind : Change) (s t : List (Edit α)) :
    side kind (s ++ t) = side kind s ++ side kind t := List.flatMap_append

@[simp] theorem side_run (kind other : Change) (items : List α) :
    side kind (run other items) = if other = kind then items else [] := by
  cases items <;> simp [run, onSide]

@[simp] theorem side_map_keep (kind : Change) (items : List α) :
    side kind (items.map .keep) = items := by
  induction items with
  | nil => rfl
  | cons x items ih => simp [onSide, ih]

/-- Replacing as a whole starts from the one sequence. -/
theorem side_replace_deletion (xs ys : List α) : side .deletion (replace xs ys) = xs := by
  simp [replace]

/-- Replacing as a whole leads to the other sequence. -/
theorem side_replace_insertion (xs ys : List α) : side .insertion (replace xs ys) = ys := by
  simp [replace]

end Edit
end SchemaSets.Text
