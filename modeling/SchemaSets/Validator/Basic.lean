import SchemaSets.Keyed

/-!
# Validators

A validator is a tree of checks.  Two of its nodes put something off.  A
*reference* names an entry of a compiled set and holds a handle to that set, so
that entries may refer to one another in any order and in cycles; what the name
stands for is looked up when a value is checked.  A *lazy* node stands for a
child that is built when it is first needed.

Building a child is a computation without effects, so a lazy node simply holds
the child.  Whether the child was built is a fact about the history of a tree,
kept apart from the tree by the places of its lazy nodes.  What a lazy node
does carry is a label, the description of its child if that was known ahead.
-/

namespace SchemaSets

/-- A way to look names up in a compiled set, which it does not keep alive. -/
inductive Handle
  | detached
  | ofSet (id : Nat)
deriving DecidableEq, Repr

/-- A validator. -/
inductive Validator
  | any
  | literal (text : String)
  | boolean
  | string
  | number
  | enumeration (values : List String)
  | object (fields : List (String × Validator)) (closed : Bool)
  | array (item : Validator)
  | record (value : Validator)
  | union (branches : List Validator)
  | function (args : List Validator) (returns : Option Validator)
  | lazy (label : Option String) (child : Validator)
  | reference (target owner : String) (registry : Handle)
  | optional (inner : Validator)

namespace Validator

instance : Inhabited Validator := ⟨.any⟩

/-- An open object from fields in any order; of two with one name the later
wins. -/
def ofFields (fields : List (String × Validator)) : Validator :=
  .object (Keyed.ofList fields) false

/-- An object that takes only its own fields; other validators stay as they
are. -/
def close : Validator → Validator
  | .object fields _ => .object fields true
  | v => v

mutual
/-- The number of nodes of a validator. -/
def size : Validator → Nat
  | .object fields _ => 1 + sizeFields fields
  | .array item => 1 + size item
  | .record value => 1 + size value
  | .union branches => 1 + sizeList branches
  | .function args (some returns) => 1 + sizeList args + size returns
  | .function args none => 1 + sizeList args
  | .lazy _ child => 1 + size child
  | .optional inner => 1 + size inner
  | _ => 1
/-- The number of nodes in a list of validators. -/
def sizeList : List Validator → Nat
  | [] => 0
  | v :: rest => size v + sizeList rest
/-- The number of nodes in a list of fields. -/
def sizeFields : List (String × Validator) → Nat
  | [] => 0
  | (_, v) :: rest => size v + sizeFields rest
end

/-- A validator has at least one node. -/
theorem size_pos (v : Validator) : 0 < v.size := by
  cases v with
  | function args returns => cases returns <;> unfold size <;> omega
  | _ => unfold size; omega

/-- The nodes of two lists together. -/
@[simp] theorem sizeList_append (vs ws : List Validator) :
    sizeList (vs ++ ws) = sizeList vs + sizeList ws := by
  induction vs with
  | nil => simp [sizeList]
  | cons v vs ih => simp [sizeList, ih, Nat.add_assoc]

end Validator
end SchemaSets
