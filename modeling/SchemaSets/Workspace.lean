import SchemaSets.Element.Compile
import SchemaSets.Lazy.Outline
import SchemaSets.Lazy.Rendered
import SchemaSets.Lazy.Walked

/-!
# Workspaces

A workspace holds the compiled sets in use and remembers which lazy nodes were
built.  Every operation that looks into validators is given here in the form
that also records what it built; its answer is that of the plain operation and
never depends on the record.

A set that is removed takes nothing else with it: validators that were taken
from it go on as they are, with handles that no longer resolve.
-/

namespace SchemaSets

/-- Compiled sets in use and the lazy nodes built so far. -/
structure Workspace where
  shelf : Shelf := {}
  built : List Place := []
  nextId : Nat := 0

namespace Workspace

/-- The workspace in which some more lazy nodes are built. -/
def mark (w : Workspace) (places : List Place) : Workspace :=
  { w with built := places.filter (fun place => place ∉ w.built) ++ w.built }

/-- Reserves a number for a set.  Its handle resolves nothing yet. -/
def reserve (w : Workspace) : Nat × Workspace := (w.nextId, { w with nextId := w.nextId + 1 })

/-- Reserves a number for a tree that belongs to no set. -/
def plant (w : Workspace) (v : Validator) : Located × Workspace :=
  (⟨⟨.loose w.nextId, []⟩, v⟩, { w with nextId := w.nextId + 1 })

/-- Puts a set of named validators under a reserved number.  Each is described,
which builds its lazy nodes without a label. -/
def install (w : Workspace) (id : Nat) (validators : List (String × Validator)) : Workspace :=
  let places := validators.flatMap fun v =>
    v.2.builtByDescribe (.ofEntry (.ofSet id) v.1)
  { w.mark places with shelf := w.shelf.put id (.ofValidators validators) }

/-- Compiles a set of elements under a number of its own. -/
def compile (w : Workspace) (settings : CompilerSettings) (set : SchemaSet) : Nat × Workspace :=
  let (id, w) := w.reserve
  (id, { w with shelf := w.shelf.put id (set.compile settings (.ofSet id)) })

/-- Removes the set of a number. -/
def drop (w : Workspace) (id : Nat) : Workspace := { w with shelf := w.shelf.drop id }

/-- The set of a number. -/
def find? (w : Workspace) (id : Nat) : Option CompiledSet := w.shelf.find? id

/-- The report on a slot. -/
def check (w : Workspace) (node : Located) (slot : Slot) :
    Except ReferenceError Report × Workspace :=
  (node.validator.validateSlot w.shelf slot,
    w.mark (builtByWalk w.shelf [] node.place node.validator slot))

/-- Whether a slot that holds nothing may fit. -/
def mayBeAbsent (w : Workspace) (node : Located) : Bool × Workspace :=
  (node.validator.mayBeAbsent w.shelf, w.mark (node.builtByAbsence w.shelf))

/-- The schema of a validator. -/
def schema (w : Workspace) (settings : ExportSettings) (node : Located) : Json × Workspace :=
  (node.validator.schema w.shelf settings, w.mark (node.builtBySchema w.shelf))

/-- The description of a validator. -/
def describe (w : Workspace) (node : Located) : String × Workspace :=
  (node.validator.describe, w.mark (node.validator.builtByDescribe node.place))

/-- The documents of the set of a number. -/
def exportWith (w : Workspace) (settings : ExportSettings)
    (dependencies : List (String × List String)) (id : Nat) (set : CompiledSet) :
    ExportedSet × Workspace :=
  (set.exportWith w.shelf settings dependencies,
    w.mark (set.builtByExport w.shelf (.ofSet id) dependencies))

/-- For each lazy node of a tree, whether it was built. -/
def flags (w : Workspace) (node : Located) : List Bool :=
  node.validator.flags w.built node.place

/-- The flags of every entry of a set that has lazy nodes. -/
def flagsOfSet (w : Workspace) (id : Nat) (set : CompiledSet) : List (String × List Bool) :=
  set.entries.filterMap fun e =>
    match w.flags (.ofEntry (.ofSet id) e.1 e.2.validator) with
    | [] => none
    | flags => some (e.1, flags)

/-- A lazy node as it stands; other nodes are not shown. -/
def outline? (w : Workspace) (node : Located) : Option String :=
  match node.validator with
  | .lazy _ child =>
    some <| "Lazy(" ++
      (if node.place ∈ w.built then child.outline w.shelf w.built (node.place.child 0)
        else "<pending>") ++ ")"
  | _ => none

end Workspace
end SchemaSets
