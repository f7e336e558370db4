import SchemaSets.Json.Basic
import SchemaSets.Decimal.Format
import SchemaSets.Text.Quoted

/-!
# The shape of a document

Data of a fixed form is read out of a document by asking for strings,
booleans, sequences and maps at known places.  A document that has something
else there is malformed, and `Malformation` says in what way: the kind of value
found, a name that is not on a list, a field that is missing, a sequence of the
wrong length.
-/

namespace SchemaSets

/-- A way in which a document fails to have the form asked of it. -/
inductive Malformation
  | invalidType (found : Json) (expected : String)
  | severalKeys
  | missingField (name : String)
  | unknownVariant (found : String) (allowed : List String)
  | unknownPosition (found : Json) (count : Nat)
  | invalidLength (length : Nat) (expected : String)

namespace Json

/-- A document named by its kind, with its content if it is a single word. -/
def shape : Json → String
  | .null => "null"
  | .bool b => "boolean `" ++ toString b ++ "`"
  | .number (.integer n) => "integer `" ++ toString n ++ "`"
  | .number (.double x) => "floating point `" ++ Decimal.json x ++ "`"
  | .string s => "string " ++ Text.quote s
  | .array _ => "sequence"
  | .object _ => "map"

end Json

namespace Malformation

/-- A list of permitted names: none, one, two, or more. -/
def alternatives (names : List String) : String :=
  match names.map fun name => "`" ++ name ++ "`" with
  | [] => "nothing"
  | [a] => a
  | [a, b] => a ++ " or " ++ b
  | many => "one of " ++ ", ".intercalate many

/-- The words for a malformation. -/
def text : Malformation → String
  | .invalidType found expected => "invalid type: " ++ found.shape ++ ", expected " ++ expected
  | .severalKeys => "invalid value: map, expected map with a single key"
  | .missingField name => "missing field `" ++ name ++ "`"
  | .unknownVariant found allowed =>
    "unknown variant `" ++ found ++ "`, expected " ++ alternatives allowed
  | .unknownPosition found count =>
    "invalid value: " ++ found.shape ++ ", expected variant index 0 <= i < " ++ toString count
  | .invalidLength length expected =>
    "invalid length " ++ toString length ++ ", expected " ++ expected

end Malformation

namespace Json

/-- The text of a string. -/
def asString : Json → Except Malformation String
  | .string s => .ok s
  | other => .error (.invalidType other "a string")

/-- The value of a boolean. -/
def asBool : Json → Except Malformation Bool
  | .bool b => .ok b
  | other => .error (.invalidType other "a boolean")

/-- The items of an array. -/
def asSequence : Json → Except Malformation (List Json)
  | .array items => .ok items
  | other => .error (.invalidType other "a sequence")

/-- The members of an object. -/
def asMap : Json → Except Malformation (List (String × Json))
  | .object members => .ok members
  | other => .error (.invalidType other "a map")

/-- The texts of an array of strings; the first item of another kind is the
fault. -/
def asStrings (document : Json) : Except Malformation (List String) := do
  (← document.asSequence).mapM asString

/-- The choice that a name stands for. -/
def choose {α : Type} (choices : List (String × α)) (name : String) : Except Malformation α :=
  match choices.find? fun choice => choice.1 = name with
  | some choice => .ok choice.2
  | none => .error (.unknownVariant name (choices.map (·.1)))

/-- The choice at a position of the list. -/
def chooseAt {α : Type} (choices : List (String × α)) (position : Nat) :
    Except Malformation α :=
  match choices[position]? with
  | some choice => .ok choice.2
  | none => .error (.unknownPosition (.int position) choices.length)

/-- One of a list of named choices, written as its name or as an object whose
only key is the name and whose value is `isUnit`. -/
def asChoice {α : Type} (choices : List (String × α)) (isUnit : Json → Bool) :
    Json → Except Malformation α
  | .string name => choose choices name
  | .object [(name, value)] => do
    let choice ← choose choices name
    if isUnit value then .ok choice else .error (.invalidType value "unit")
  | .object _ => .error .severalKeys
  | other => .error (.invalidType other "string or map")

/-- Only null. -/
def isNull : Json → Bool
  | .null => true
  | _ => false

/-- Null, or an object without members. -/
def isEmpty : Json → Bool
  | .null => true
  | .object [] => true
  | _ => false

end Json
end SchemaSets
