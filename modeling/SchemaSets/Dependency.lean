import SchemaSets.Element.Basic
import SchemaSets.Names

/-!
# Dependencies

Which entries of a set each entry refers to, directly and through others.  The
graph has an arrow from an entry to every name its element refers to, whether
or not the set has that name; a name without an entry has no arrows of its own.

The signature of a function is not looked into, because no value is ever
checked against it.  One name is set apart for documents that describe
themselves, and is never counted as a dependency.
-/

namespace SchemaSets

/-- The name that is never counted as a dependency. -/
def reservedName : String := "SimpleBootstrapElementSchema"

namespace Element

mutual
/-- The targets of the references in an element, in the order in which they
stand, function signatures left out. -/
def targets : Element → List String
  | .literal _ _ | .simple _ _ | .enumeration _ _ | .function _ _ _ => []
  | .object attributes _ => targetsOfAttributes attributes
  | .array item _ => targets item
  | .record value _ => targets value
  | .union branches _ => targetsOfList branches
  | .lazy child _ => targets child
  | .reference target _ => [target]
/-- The targets in a list of elements. -/
def targetsOfList : List Element → List String
  | [] => []
  | e :: rest => targets e ++ targetsOfList rest
/-- The targets in a list of attributes. -/
def targetsOfAttributes : List (String × Element) → List String
  | [] => []
  | (_, e) :: rest => targets e ++ targetsOfAttributes rest
end

/-- The names that an element refers to, in name order. -/
def dependencies (e : Element) : List String :=
  Keyed.nameSet (e.targets.filter fun name => name ≠ reservedName)

end Element

namespace SchemaSet

/-- The names that the entry of a name refers to; none without an entry. -/
def successors (set : SchemaSet) (name : String) : List String :=
  match set.get? name with
  | some e => e.dependencies
  | none => []

/-- The names met in a search that starts from the names `todo` and has met
`met` already. -/
def search (set : SchemaSet) (met todo : List String) : List String :=
  match todo with
  | [] => met
  | name :: rest =>
    if _hmet : name ∈ met then set.search met rest
    else
      match _h : set.get? name with
      | none => set.search (name :: met) rest
      | some e => set.search (name :: met) (e.dependencies ++ rest)
termination_by (freshAmong set.names met, todo.length)
decreasing_by
  · exact Prod.Lex.right _ (Nat.lt_succ_self _)
  · rcases Nat.lt_or_eq_of_le (freshAmong_cons_le set.names name met) with h | h
    · exact Prod.Lex.left _ _ h
    · rw [h]
      exact Prod.Lex.right _ (Nat.lt_succ_self _)
  · exact Prod.Lex.left _ _ (freshAmong_cons_lt (Keyed.mem_keys_of_find? _h) _hmet)

/-- The names that can be reached from a name in one or more steps, in name
order.  The name itself is among them only when it lies on a cycle. -/
def closure (set : SchemaSet) (name : String) : List String :=
  Keyed.nameSet (set.search [] (set.successors name))

/-- The closure of every entry. -/
def dependencyMap (set : SchemaSet) : List (String × List String) :=
  set.names.map fun name => (name, set.closure name)

/-- The names that entries refer to but the set does not have, in name order. -/
def unresolved (set : SchemaSet) : List String :=
  Keyed.nameSet ((set.names.flatMap set.successors).filter fun name => !set.contains name)

end SchemaSet
end SchemaSets
