import SchemaSets.Validator.Absence
import SchemaSets.Lazy.Place

/-!
# Lazy nodes built by the question of absence

Asking whether a value may be absent builds the lazy nodes that the search
takes from its stack before it finds an answer.
-/

namespace SchemaSets

/-- The number of nodes in a list of located validators. -/
def Located.sizeList (stack : List Located) : Nat :=
  Validator.sizeList (stack.map Located.validator)

/-- Placing the validators of a list changes none of them. -/
@[simp] theorem Place.map_validator_children (place : Place) (position : Nat)
    (vs : List Validator) : (place.children position vs).map Located.validator = vs := by
  induction vs generalizing position with
  | nil => rfl
  | cons v vs ih => simp [Place.children, ih]

/-- The places of the lazy nodes that an absence search comes to. -/
def builtBySearch (shelf : Shelf) (followed : List String) (stack : List Located) :
    List Place :=
  match stack with
  | [] => []
  | ⟨_, .any⟩ :: _ => []
  | ⟨_, .optional _⟩ :: _ => []
  | ⟨place, .lazy _ child⟩ :: rest =>
    place :: builtBySearch shelf followed (⟨place.child 0, child⟩ :: rest)
  | ⟨place, .union branches⟩ :: rest =>
    builtBySearch shelf followed (place.children 0 branches ++ rest)
  | ⟨_, .reference target owner registry⟩ :: rest =>
    if _hnew : target ∈ followed then builtBySearch shelf followed rest
    else
      match _h : shelf.resolve registry target owner with
      | .error _ => builtBySearch shelf (target :: followed) rest
      | .ok entry =>
        builtBySearch shelf (target :: followed)
          (.ofEntry registry target entry.validator :: rest)
  | _ :: rest => builtBySearch shelf followed rest
termination_by (shelf.fresh followed, Located.sizeList stack)
decreasing_by
  · exact Prod.Lex.right _ (by
      simp only [Located.sizeList, List.map_cons, Validator.sizeList, Validator.size]
      omega)
  · exact Prod.Lex.right _ (by
      simp only [Located.sizeList, List.map_cons, List.map_append,
        Place.map_validator_children, Validator.sizeList, Validator.size,
        Validator.sizeList_append]
      omega)
  · exact Prod.Lex.right _ (by
      simp only [Located.sizeList, List.map_cons, Validator.sizeList, Validator.size]
      omega)
  · rcases Nat.lt_or_eq_of_le (shelf.fresh_cons_le target followed) with h | h
    · exact Prod.Lex.left _ _ h
    · rw [h]
      exact Prod.Lex.right _ (by
        simp only [Located.sizeList, List.map_cons, Validator.sizeList, Validator.size]
        omega)
  · exact Prod.Lex.left _ _ (Shelf.fresh_cons_lt (Shelf.mem_names_of_resolve _h) _hnew)
  · exact Prod.Lex.right _ (by
      have := Validator.size_pos (Located.validator ‹_›)
      simp only [Located.sizeList, List.map_cons, Validator.sizeList]
      omega)

/-- The lazy nodes that asking for absence builds. -/
def Located.builtByAbsence (shelf : Shelf) (node : Located) : List Place :=
  builtBySearch shelf [] [node]

end SchemaSets
