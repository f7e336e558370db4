import SchemaSets.Registry

/-!
# Whether a value may be absent

Some validators fit a slot that holds nothing.  Whether one does can be told
from the validators alone: one that takes anything and one marked optional do,
a lazy node does if its child does, a union if one branch does, a reference if
what it names does, and no other does.

Since only alternatives occur, this is a search through a graph for a node that
takes absence.  The search keeps a stack of alternatives still to be looked at,
and the names that it followed.  A name is followed once: what is met a second
time has nothing new to offer, and so has a name that stands for nothing.
-/

namespace SchemaSets

/-- Whether an alternative of the stack fits an empty slot, `followed` being
the names that need no second look. -/
def absenceSearch (shelf : Shelf) (followed : List String) (stack : List Validator) : Bool :=
  match stack with
  | [] => false
  | .any :: _ => true
  | .optional _ :: _ => true
  | .lazy _ child :: rest => absenceSearch shelf followed (child :: rest)
  | .union branches :: rest => absenceSearch shelf followed (branches ++ rest)
  | .reference target owner registry :: rest =>
    if _hnew : target ∈ followed then absenceSearch shelf followed rest
    else
      match _h : shelf.resolve registry target owner with
      | .error _ => absenceSearch shelf (target :: followed) rest
      | .ok entry => absenceSearch shelf (target :: followed) (entry.validator :: rest)
  | _ :: rest => absenceSearch shelf followed rest
termination_by (shelf.fresh followed, Validator.sizeList stack)
decreasing_by
  · exact Prod.Lex.right _ (by simp only [Validator.sizeList, Validator.size]; omega)
  · exact Prod.Lex.right _ (by
      simp only [Validator.sizeList, Validator.size, Validator.sizeList_append]
      omega)
  · exact Prod.Lex.right _ (by simp only [Validator.sizeList, Validator.size]; omega)
  · rcases Nat.lt_or_eq_of_le (shelf.fresh_cons_le target followed) with h | h
    · exact Prod.Lex.left _ _ h
    · rw [h]
      exact Prod.Lex.right _ (by simp only [Validator.sizeList, Validator.size]; omega)
  · exact Prod.Lex.left _ _ (Shelf.fresh_cons_lt (Shelf.mem_names_of_resolve _h) _hnew)
  · exact Prod.Lex.right _ (by
      have := Validator.size_pos ‹_›
      simp only [Validator.sizeList]
      omega)

/-- Whether a slot that holds nothing may fit. -/
def Validator.mayBeAbsent (shelf : Shelf) (v : Validator) : Bool := absenceSearch shelf [] [v]

end SchemaSets
