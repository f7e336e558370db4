import SchemaSets.Registry
import SchemaSets.Lazy.Place

/-!
# Trees as they stand

An outline shows the nodes of a tree as they stand, for a reader who debugs: a
lazy node shows its child only if that was built, and a reference shows whether
its handle resolves anything.
-/

namespace SchemaSets

/-- A handle as it stands. -/
def Shelf.outline (shelf : Shelf) (registry : Handle) : String :=
  "RegistryHandle \x7b available: " ++ toString (shelf.isAvailable registry) ++ " \x7d"

namespace Validator

mutual
/-- A tree as it stands. -/
def outline (shelf : Shelf) (built : List Place) (place : Place) : Validator → String
  | .any => "Any"
  | .literal text => "Literal(" ++ Text.quote text ++ ")"
  | .boolean => "Boolean"
  | .string => "String"
  | .number => "Number"
  | .enumeration values => "Enum(" ++ Text.quoteList values ++ ")"
  | .object fields closed =>
    "Object \x7b fields: \x7b" ++ ", ".intercalate (outlineFields shelf built place 0 fields) ++
      "\x7d, closed: " ++ toString closed ++ " \x7d"
  | .array item => "Array(" ++ outline shelf built (place.child 0) item ++ ")"
  | .record value => "Record(" ++ outline shelf built (place.child 0) value ++ ")"
  | .union branches =>
    "Union([" ++ ", ".intercalate (outlineList shelf built place 0 branches) ++ "])"
  | .function args none =>
    "Function \x7b args: [" ++ ", ".intercalate (outlineList shelf built place 0 args) ++
      "], returns: None \x7d"
  | .function args (some returns) =>
    "Function \x7b args: [" ++ ", ".intercalate (outlineList shelf built place 0 args) ++
      "], returns: Some(" ++ outline shelf built (place.child args.length) returns ++ ") \x7d"
  | .lazy _ child =>
    "Lazy(Lazy(" ++
      (if place ∈ built then outline shelf built (place.child 0) child else "<pending>") ++ "))"
  | .reference target owner registry =>
    "Reference(Reference \x7b target: " ++ Text.quote target ++ ", from: " ++ Text.quote owner ++
      ", registry: " ++ shelf.outline registry ++ " \x7d)"
  | .optional inner => "Optional(" ++ outline shelf built (place.child 0) inner ++ ")"
/-- The trees of a list as they stand. -/
def outlineList (shelf : Shelf) (built : List Place) (place : Place) :
    Nat → List Validator → List String
  | _, [] => []
  | position, v :: rest =>
    outline shelf built (place.child position) v ::
      outlineList shelf built place (position + 1) rest
/-- The fields of an object as they stand. -/
def outlineFields (shelf : Shelf) (built : List Place) (place : Place) :
    Nat → List (String × Validator) → List String
  | _, [] => []
  | position, (name, v) :: rest =>
    (Text.quote name ++ ": " ++ outline shelf built (place.child position) v) ::
      outlineFields shelf built place (position + 1) rest
end

end Validator
end SchemaSets
