import SchemaSets.Element.Basic
import SchemaSets.Json.Basic

/-!
# Elements as documents

The written form of an element is an object: its tag under `type`, what it is
made of under `definition`, and `"optional": true` when it is marked.  A
function has `args` and, when it has one, `returns` in place of `definition`.
Members appear in key order, so equal elements have equal documents.
-/

namespace SchemaSets

namespace Element

/-- The member that marks an optional element. -/
def optionalMember (isOptional : Bool) : List (String × Json) :=
  if isOptional then [("optional", .bool true)] else []

/-- The document of an element with a definition. -/
def tagged (form : Form) (definition : Json) (isOptional : Bool) : Json :=
  .object (("definition", definition) :: optionalMember isOptional ++ [("type", .string form.tag)])

/-- The document of a function element. -/
def taggedFunction (args : List Json) (returns : Option Json) (isOptional : Bool) : Json :=
  .object (("args", .array args) :: optionalMember isOptional ++
    (returns.map fun r => ("returns", r)).toList ++ [("type", .string Form.function.tag)])

mutual
/-- The document of an element. -/
def toJson : Element → Json
  | .literal text o => tagged .literal (.string text) o
  | .simple kind o => tagged .simple (.string kind.word) o
  | .enumeration values o => tagged .enumeration (Json.strings values) o
  | .object attributes o => tagged .object (.object (attributesToJson attributes)) o
  | .array item o => tagged .array (toJson item) o
  | .record value o => tagged .record (toJson value) o
  | .union branches o => tagged .union (.array (listToJson branches)) o
  | .function args none o => taggedFunction (listToJson args) none o
  | .function args (some returns) o => taggedFunction (listToJson args) (some (toJson returns)) o
  | .lazy child o => tagged .lazy (toJson child) o
  | .reference target o => tagged .reference (.string target) o
/-- The documents of a list of elements. -/
def listToJson : List Element → List Json
  | [] => []
  | e :: rest => toJson e :: listToJson rest
/-- The members for a list of attributes. -/
def attributesToJson : List (String × Element) → List (String × Json)
  | [] => []
  | (name, e) :: rest => (name, toJson e) :: attributesToJson rest
end

end Element

/-- The document of a set: an object with the document of each entry. -/
def SchemaSet.toJson (set : SchemaSet) : Json :=
  .object (Element.attributesToJson set.elements)

end SchemaSets
