import SchemaSets.Export
import SchemaSets.Lazy.Searched

/-!
# Lazy nodes built by writing documents

Writing the schema of a validator builds every lazy node outside function
signatures, since each is written as its child.  For every field of an object
it also asks whether the field may be absent, which may build lazy nodes of
other entries.
-/

namespace SchemaSets

namespace Validator

mutual
/-- The lazy nodes that writing a validator's schema builds. -/
def builtBySchema (shelf : Shelf) (place : Place) : Validator → List Place
  | .any | .literal _ | .boolean | .string | .number | .enumeration _ | .function _ _
  | .reference _ _ _ => []
  | .object fields _ => builtBySchemaFields shelf place 0 fields
  | .array item => builtBySchema shelf (place.child 0) item
  | .record value => builtBySchema shelf (place.child 0) value
  | .union branches => builtBySchemaList shelf place 0 branches
  | .lazy _ child => place :: builtBySchema shelf (place.child 0) child
  | .optional inner => builtBySchema shelf (place.child 0) inner
/-- The lazy nodes that writing a list of validators builds. -/
def builtBySchemaList (shelf : Shelf) (place : Place) : Nat → List Validator → List Place
  | _, [] => []
  | position, v :: rest =>
    builtBySchema shelf (place.child position) v ++
      builtBySchemaList shelf place (position + 1) rest
/-- The lazy nodes that writing a list of fields builds. -/
def builtBySchemaFields (shelf : Shelf) (place : Place) :
    Nat → List (String × Validator) → List Place
  | _, [] => []
  | position, (_, v) :: rest =>
    builtBySchema shelf (place.child position) v ++
      (Located.mk (place.child position) v).builtByAbsence shelf ++
      builtBySchemaFields shelf place (position + 1) rest
end

end Validator

/-- The lazy nodes that writing a validator's schema builds. -/
def Located.builtBySchema (shelf : Shelf) (node : Located) : List Place :=
  node.validator.builtBySchema shelf node.place

namespace CompiledSet

/-- The entry of a name, at its place behind `registry`. -/
def located? (set : CompiledSet) (registry : Handle) (name : String) : Option Located :=
  (set.get? name).map fun entry => .ofEntry registry name entry.validator

/-- The lazy nodes that exporting a set builds: those of every entry and of
every definition. -/
def builtByExport (shelf : Shelf) (registry : Handle)
    (dependencies : List (String × List String)) (set : CompiledSet) : List Place :=
  set.names.flatMap fun name =>
    ((scope dependencies name ++ [name]).filterMap (set.located? registry)).flatMap fun node =>
      node.builtBySchema shelf

end CompiledSet
end SchemaSets
