import SchemaSets.Validator.Absence
import SchemaSets.Json.Pointer

/-!
# Validators as schemas

The schema that a validator stands for.  Marks and lazy nodes leave no trace of
their own: what is optional shows only in the list of required attributes, and
a lazy node is written as its child.  A reference becomes a pointer to a
definition of the document around it, whether or not the document has one.
Nothing in JSON is a callable, so a function asks for nothing.

A schema is always an object; its members are given in key order.
-/

namespace SchemaSets

/-- The pointer to the definition of a name, where `key` holds the definitions. -/
def definitionReference (key target : String) : String :=
  "#/" ++ Json.Pointer.escape key ++ "/" ++ Json.Pointer.escape target

/-- The names of the fields that may not be absent. -/
def requiredFields (shelf : Shelf) (fields : List (String × Validator)) : List String :=
  (fields.filter fun field => !field.2.mayBeAbsent shelf).map (·.1)

/-- A required name is that of a field that may not be absent. -/
theorem mem_requiredFields {shelf : Shelf} {fields : List (String × Validator)} {name : String} :
    name ∈ requiredFields shelf fields ↔
      ∃ field ∈ fields, field.1 = name ∧ field.2.mayBeAbsent shelf = false := by
  simp only [requiredFields, List.mem_map, List.mem_filter, Bool.not_eq_true']
  constructor
  · rintro ⟨field, ⟨hfield, hmay⟩, hname⟩
    exact ⟨field, hfield, hname, hmay⟩
  · rintro ⟨field, hfield, hname, hmay⟩
    exact ⟨field, ⟨hfield, hmay⟩, hname⟩

namespace Validator

mutual
/-- The members of the schema of a validator. -/
def schemaMembers (shelf : Shelf) (key : String) : Validator → List (String × Json)
  | .any => []
  | .literal text => [("const", .string text), ("type", .string "string")]
  | .boolean => [("type", .string "boolean")]
  | .string => [("type", .string "string")]
  | .number => [("type", .string "number")]
  | .enumeration values => [("enum", Json.strings values), ("type", .string "string")]
  | .object fields closed =>
    (if closed then [("additionalProperties", .bool false)] else []) ++
    [("properties", .object (schemaFields shelf key fields))] ++
    (match requiredFields shelf fields with
      | [] => []
      | names => [("required", Json.strings names)]) ++
    [("type", .string "object")]
  | .array item => [("items", .object (schemaMembers shelf key item)), ("type", .string "array")]
  | .record value =>
    [("additionalProperties", .object (schemaMembers shelf key value)), ("type", .string "object")]
  | .union branches => [("anyOf", .array (schemaList shelf key branches))]
  | .function _ _ => []
  | .lazy _ child => schemaMembers shelf key child
  | .reference target _ _ => [("$ref", .string (definitionReference key target))]
  | .optional inner => schemaMembers shelf key inner
/-- The schemas of a list of validators. -/
def schemaList (shelf : Shelf) (key : String) : List Validator → List Json
  | [] => []
  | v :: rest => .object (schemaMembers shelf key v) :: schemaList shelf key rest
/-- The schemas of a list of fields. -/
def schemaFields (shelf : Shelf) (key : String) :
    List (String × Validator) → List (String × Json)
  | [] => []
  | (name, v) :: rest =>
    (name, .object (schemaMembers shelf key v)) :: schemaFields shelf key rest
end

/-- The schema of a validator. -/
def schema (shelf : Shelf) (settings : ExportSettings) (v : Validator) : Json :=
  .object (v.schemaMembers shelf settings.definitionsKey)

end Validator
end SchemaSets
