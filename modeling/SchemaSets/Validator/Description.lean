import SchemaSets.Validator.Basic
import SchemaSets.Element.Basic
import SchemaSets.Settings
import SchemaSets.Text.Quoted

/-!
# Descriptions

A description writes the shape of a validator on one line.  It is composed from
the descriptions of the parts, so two validators of one shape have one
description, whichever way they were made.

The description that an element will have once compiled can be told from the
element alone.  The compiler uses this for the labels of lazy nodes, which is
why describing a compiled set builds nothing.
-/

namespace SchemaSets.Description

/-- A literal string. -/
def literal (text : String) : String := "literal(" ++ Text.quote text ++ ")"

/-- One of several strings. -/
def enumeration (values : List String) : String := "enum" ++ Text.quoteList values

/-- An object with the descriptions of its fields. -/
def object (closed : Bool) (fields : List (String × String)) : String :=
  (if closed then "strictObject\x7b" else "object\x7b") ++
    ", ".intercalate (fields.map fun field => field.1 ++ ": " ++ field.2) ++ "\x7d"

/-- A sequence. -/
def array (item : String) : String := "array<" ++ item ++ ">"

/-- A string-keyed record. -/
def record (value : String) : String := "record<string, " ++ value ++ ">"

/-- A choice between branches. -/
def union (branches : List String) : String := "union[" ++ " | ".intercalate branches ++ "]"

/-- A function with its signature. -/
def function (args : List String) (returns : Option String) : String :=
  "function(" ++ ", ".intercalate args ++ ")" ++ (returns.map (" -> " ++ ·)).getD ""

/-- A lazy node. -/
def lazy (child : String) : String := "lazy(() => " ++ child ++ ")"

/-- A reference. -/
def reference (target : String) : String := "ref(" ++ target ++ ")"

/-- An optional validator. -/
def optional (inner : String) : String := inner ++ "?"

end SchemaSets.Description

namespace SchemaSets

namespace Validator

mutual
/-- The description of a validator. -/
def describe : Validator → String
  | .any => "any"
  | .literal text => Description.literal text
  | .boolean => "boolean"
  | .string => "string"
  | .number => "number"
  | .enumeration values => Description.enumeration values
  | .object fields closed => Description.object closed (describeFields fields)
  | .array item => Description.array (describe item)
  | .record value => Description.record (describe value)
  | .union branches => Description.union (describeList branches)
  | .function args none => Description.function (describeList args) none
  | .function args (some returns) =>
    Description.function (describeList args) (some (describe returns))
  | .lazy (some label) _ => Description.lazy label
  | .lazy none child => Description.lazy (describe child)
  | .reference target _ _ => Description.reference target
  | .optional inner => Description.optional (describe inner)
/-- The descriptions of a list of validators. -/
def describeList : List Validator → List String
  | [] => []
  | v :: rest => describe v :: describeList rest
/-- The descriptions of a list of fields. -/
def describeFields : List (String × Validator) → List (String × String)
  | [] => []
  | (name, v) :: rest => (name, describe v) :: describeFields rest
end

end Validator

namespace Element

/-- The description of an element of that mark. -/
def marked (isOptional : Bool) (text : String) : String :=
  if isOptional then Description.optional text else text

mutual
/-- The description that an element will have once compiled. -/
def describe (policy : UnknownAttributes) : Element → String
  | .literal text o => marked o (Description.literal text)
  | .simple kind o => marked o kind.word
  | .enumeration values o =>
    marked o (if values.length < 2 then SimpleKind.any.word else Description.enumeration values)
  | .object attributes o =>
    marked o (Description.object (policy = .reject) (describeAttributes policy attributes))
  | .array item o => marked o (Description.array (describe policy item))
  | .record value o => marked o (Description.record (describe policy value))
  | .union branches o => marked o (Description.union (describeList policy branches))
  | .function args none o => marked o (Description.function (describeList policy args) none)
  | .function args (some returns) o =>
    marked o (Description.function (describeList policy args) (some (describe policy returns)))
  | .lazy child o => marked o (Description.lazy (describe policy child))
  | .reference target o => marked o (Description.reference target)
/-- The descriptions of a list of elements. -/
def describeList (policy : UnknownAttributes) : List Element → List String
  | [] => []
  | e :: rest => describe policy e :: describeList policy rest
/-- The descriptions of a list of attributes. -/
def describeAttributes (policy : UnknownAttributes) :
    List (String × Element) → List (String × String)
  | [] => []
  | (name, e) :: rest => (name, describe policy e) :: describeAttributes policy rest
end

end Element
end SchemaSets
