import SchemaSets.Validator.Walk
import SchemaSets.Lazy.Place

/-!
# Lazy nodes built by checking a value

Checking a value builds the lazy nodes that the walk comes through, and no
others.  The functions here take the same way as `walk`: branches of a union
that are not tried build nothing, and neither does what would come after a
reference that cannot be followed.
-/

namespace SchemaSets

/-- Whether a part of a walk lets the rest go on. -/
def goesOn (part : Except ReferenceError (List Issue)) : Bool :=
  match part with
  | .ok _ => true
  | .error _ => false

/-- Whether a branch leaves the later branches of its union to be tried. -/
def leavesOpen (part : Except ReferenceError (List Issue)) : Bool :=
  match part with
  | .ok issues => !issues.isEmpty
  | .error _ => false

mutual
/-- The places of the lazy nodes on the way of a walk. -/
def builtByWalk (shelf : Shelf) (chain : List String) (place : Place) (v : Validator)
    (slot : Slot) : List Place :=
  match v with
  | .object fields _ =>
    match slot with
    | some (.object members) => builtByFields shelf place 0 fields members
    | _ => []
  | .array item =>
    match slot with
    | some (.array items) => builtByItems shelf (place.child 0) item items
    | _ => []
  | .record value =>
    match slot with
    | some (.object members) => builtByMembers shelf (place.child 0) value members
    | _ => []
  | .union branches => builtByBranches shelf chain place 0 branches slot
  | .lazy _ child => place :: builtByWalk shelf chain (place.child 0) child slot
  | .reference target owner registry =>
    if _hnew : target ∈ chain then []
    else
      match _h : shelf.resolve registry target owner with
      | .error _ => []
      | .ok entry =>
        builtByWalk shelf (target :: chain) (.ofEntry registry target) entry.validator slot
  | .optional inner =>
    match slot with
    | none => []
    | some x => builtByWalk shelf chain (place.child 0) inner (some x)
  | _ => []
termination_by (slot.size, shelf.fresh chain, 2 * v.size)
decreasing_by
  · exact Prod.Lex.left _ _ (by simp [Slot.size, Value.size])
  · exact Prod.Lex.left _ _ (by simp [Slot.size, Value.size])
  · exact Prod.Lex.left _ _ (by simp [Slot.size, Value.size])
  · exact Prod.Lex.right _ (Prod.Lex.right _ (by simp only [Validator.size]; omega))
  · exact Prod.Lex.right _ (Prod.Lex.right _ (by simp only [Validator.size]; omega))
  · exact Prod.Lex.right _ (Prod.Lex.left _ _
      (Shelf.fresh_cons_lt (Shelf.mem_names_of_resolve _h) _hnew))
  · exact Prod.Lex.right _ (Prod.Lex.right _ (by simp only [Validator.size]; omega))
/-- The places on the way through the branches that are tried. -/
def builtByBranches (shelf : Shelf) (chain : List String) (place : Place) (position : Nat)
    (branches : List Validator) (slot : Slot) : List Place :=
  match branches with
  | [] => []
  | branch :: rest =>
    builtByWalk shelf chain (place.child position) branch slot ++
      if leavesOpen (walk shelf chain branch slot) then
        builtByBranches shelf chain place (position + 1) rest slot
      else []
termination_by (slot.size, shelf.fresh chain, 2 * Validator.sizeList branches + 1)
decreasing_by
  · exact Prod.Lex.right _ (Prod.Lex.right _ (by simp only [Validator.sizeList]; omega))
  · exact Prod.Lex.right _ (Prod.Lex.right _ (by
      have := branch.size_pos
      simp only [Validator.sizeList]
      omega))
/-- The places on the way through the listed fields. -/
def builtByFields (shelf : Shelf) (place : Place) (position : Nat)
    (fields : List (String × Validator)) (members : List (String × Value)) : List Place :=
  match fields with
  | [] => []
  | (name, field) :: rest =>
    builtByWalk shelf [] (place.child position) field (Keyed.find? name members) ++
      if goesOn (walk shelf [] field (Keyed.find? name members)) then
        builtByFields shelf place (position + 1) rest members
      else []
termination_by (Value.sizeMembers members, shelf.names.length + 1, Validator.sizeFields fields)
decreasing_by
  · exact walk_descends (Slot.size_find?_le _ _) (Nat.lt_succ_of_le (shelf.fresh_le _))
  · exact Prod.Lex.right _ (Prod.Lex.right _ (by
      have := field.size_pos
      simp only [Validator.sizeFields]
      omega))
/-- The places on the way through the items of a sequence. -/
def builtByItems (shelf : Shelf) (place : Place) (item : Validator) (items : List Value) :
    List Place :=
  match items with
  | [] => []
  | x :: rest =>
    builtByWalk shelf [] place item (some x) ++
      if goesOn (walk shelf [] item (some x)) then builtByItems shelf place item rest else []
termination_by (Value.sizeItems items, shelf.names.length + 1, 0)
decreasing_by
  · exact walk_descends (by simp only [Slot.size, Value.sizeItems]; omega)
      (Nat.lt_succ_of_le (shelf.fresh_le _))
  · exact Prod.Lex.left _ _ (by
      have := x.size_pos
      simp only [Value.sizeItems]
      omega)
/-- The places on the way through the values of a record. -/
def builtByMembers (shelf : Shelf) (place : Place) (value : Validator)
    (members : List (String × Value)) : List Place :=
  match members with
  | [] => []
  | (_, x) :: rest =>
    builtByWalk shelf [] place value (some x) ++
      if goesOn (walk shelf [] value (some x)) then builtByMembers shelf place value rest else []
termination_by (Value.sizeMembers members, shelf.names.length + 1, 0)
decreasing_by
  · exact walk_descends (by simp only [Slot.size, Value.sizeMembers]; omega)
      (Nat.lt_succ_of_le (shelf.fresh_le _))
  · exact Prod.Lex.left _ _ (by
      have := x.size_pos
      simp only [Value.sizeMembers]
      omega)
end

end SchemaSets
