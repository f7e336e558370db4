import SchemaSets.Validator.Basic
import SchemaSets.Text.Quoted

/-!
# Places of lazy nodes

Which lazy nodes of a tree have been built is a fact about what was done with
the tree so far.  It is kept as a list of places.  A place is the root of a
tree, an entry behind a handle or a tree that stands by itself, and the
positions of the children that lead down to the node.

Children are counted in the order in which they stand: the fields of an object,
the branches of a union, the arguments of a function and then what it returns;
the child of any other node is number zero.
-/

namespace SchemaSets

/-- The root of a tree of validators. -/
inductive Root
  | entry (registry : Handle) (name : String)
  | loose (id : Nat)
deriving DecidableEq, Repr

/-- A node of a tree: its root and the positions on the way down, the last
first. -/
structure Place where
  root : Root
  steps : List Nat := []
deriving DecidableEq, Repr

/-- The place of a child. -/
def Place.child (place : Place) (position : Nat) : Place :=
  { place with steps := position :: place.steps }

/-- The place of what a name stands for behind a handle. -/
def Place.ofEntry (registry : Handle) (name : String) : Place := ⟨.entry registry name, []⟩

/-- A validator together with its place. -/
structure Located where
  place : Place
  validator : Validator

/-- An entry's validator at its place. -/
def Located.ofEntry (registry : Handle) (name : String) (v : Validator) : Located :=
  ⟨.ofEntry registry name, v⟩

/-- The validators of a list as the children of a place, counted from
`position` on. -/
def Place.children (place : Place) : Nat → List Validator → List Located
  | _, [] => []
  | position, v :: rest =>
    ⟨place.child position, v⟩ :: place.children (position + 1) rest

namespace Validator

mutual
/-- For each lazy node of a tree, in the order in which they stand, whether it
was built.  What lies under a node that was not built does not exist yet. -/
def flags (built : List Place) (place : Place) : Validator → List Bool
  | .any | .literal _ | .boolean | .string | .number | .enumeration _ | .reference _ _ _ => []
  | .object fields _ => flagsOfFields built place 0 fields
  | .array item => flags built (place.child 0) item
  | .record value => flags built (place.child 0) value
  | .union branches => flagsOfList built place 0 branches
  | .function args none => flagsOfList built place 0 args
  | .function args (some returns) =>
    flagsOfList built place 0 args ++ flags built (place.child args.length) returns
  | .lazy _ child =>
    if place ∈ built then true :: flags built (place.child 0) child else [false]
  | .optional inner => flags built (place.child 0) inner
/-- The flags of a list of validators. -/
def flagsOfList (built : List Place) (place : Place) : Nat → List Validator → List Bool
  | _, [] => []
  | position, v :: rest =>
    flags built (place.child position) v ++ flagsOfList built place (position + 1) rest
/-- The flags of a list of fields. -/
def flagsOfFields (built : List Place) (place : Place) :
    Nat → List (String × Validator) → List Bool
  | _, [] => []
  | position, (_, v) :: rest =>
    flags built (place.child position) v ++ flagsOfFields built place (position + 1) rest
end

mutual
/-- The lazy nodes that describing a tree builds: those without a label. -/
def builtByDescribe (place : Place) : Validator → List Place
  | .any | .literal _ | .boolean | .string | .number | .enumeration _ | .reference _ _ _ => []
  | .object fields _ => builtByDescribeFields place 0 fields
  | .array item => builtByDescribe (place.child 0) item
  | .record value => builtByDescribe (place.child 0) value
  | .union branches => builtByDescribeList place 0 branches
  | .function args none => builtByDescribeList place 0 args
  | .function args (some returns) =>
    builtByDescribeList place 0 args ++ builtByDescribe (place.child args.length) returns
  | .lazy (some _) _ => []
  | .lazy none child => place :: builtByDescribe (place.child 0) child
  | .optional inner => builtByDescribe (place.child 0) inner
/-- The lazy nodes that describing a list of validators builds. -/
def builtByDescribeList (place : Place) : Nat → List Validator → List Place
  | _, [] => []
  | position, v :: rest =>
    builtByDescribe (place.child position) v ++ builtByDescribeList place (position + 1) rest
/-- The lazy nodes that describing a list of fields builds. -/
def builtByDescribeFields (place : Place) : Nat → List (String × Validator) → List Place
  | _, [] => []
  | position, (_, v) :: rest =>
    builtByDescribe (place.child position) v ++ builtByDescribeFields place (position + 1) rest
end

end Validator
end SchemaSets
