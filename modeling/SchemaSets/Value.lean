import SchemaSets.Json.Basic
import SchemaSets.Decimal.Format
import SchemaSets.Text.Quoted

/-!
# Runtime values

The values that validators check: JSON with doubles for numbers, and callables.
A callable is told apart from every other by its identity, which only copies of
it share; its name says nothing about that.

A value that is not there at all is no value.  What a validator looks at is a
`Slot`, which holds a value or nothing.
-/

namespace SchemaSets

/-- A function of the host, known by its identity and called by a name. -/
structure Callable where
  identity : Nat
  name : String
deriving DecidableEq, Repr

/-- A runtime value. -/
inductive Value
  | null
  | bool (value : Bool)
  | number (value : Float)
  | string (value : String)
  | array (items : List Value)
  | object (members : List (String × Value))
  | function (callable : Callable)

/-- A place that may hold a value. -/
abbrev Slot := Option Value

/-- How a callable is shown to a reader who debugs. -/
def Callable.outline (c : Callable) : String := "Callable(" ++ c.name ++ ")"

/-- Calling a callable gives back its first argument. -/
def Callable.call (_ : Callable) (arguments : List Value) : Value :=
  arguments.head?.getD .null

namespace Value

instance : Inhabited Value := ⟨.null⟩

/-- The name of a value's kind. -/
def kind : Value → String
  | .null => "null"
  | .bool _ => "boolean"
  | .number _ => "number"
  | .string _ => "string"
  | .array _ => "array"
  | .object _ => "object"
  | .function _ => "function"

/-- The text of a string. -/
def text? : Value → Option String
  | .string s => some s
  | _ => none

/-- The members of an object. -/
def members? : Value → Option (List (String × Value))
  | .object members => some members
  | _ => none

/-- The member of an object at a key. -/
def get? (key : String) (v : Value) : Option Value := v.members?.bind (Keyed.find? key)

/-- A value named by its kind, with its content if it is a single word. -/
def summary : Value → String
  | .string s => "string " ++ Text.quote s
  | .number x => "number " ++ Decimal.positional x
  | .bool b => "boolean " ++ toString b
  | v => v.kind

/-- An object from pairs in any order; of two with one key the later wins. -/
def ofPairs (pairs : List (String × Value)) : Value := .object (Keyed.ofList pairs)

mutual
/-- Equality of values.  Numbers compare as numbers, so a value that holds a
NaN differs from itself; callables compare by identity. -/
def same : Value → Value → Bool
  | .null, .null => true
  | .bool a, .bool b => a == b
  | .number a, .number b => a == b
  | .string a, .string b => a == b
  | .array a, .array b => sameItems a b
  | .object a, .object b => sameMembers a b
  | .function a, .function b => a.identity == b.identity
  | _, _ => false
/-- Equality of two sequences of values. -/
def sameItems : List Value → List Value → Bool
  | [], [] => true
  | a :: as, b :: bs => same a b && sameItems as bs
  | _, _ => false
/-- Equality of two lists of members. -/
def sameMembers : List (String × Value) → List (String × Value) → Bool
  | [], [] => true
  | (k, a) :: as, (l, b) :: bs => k == l && same a b && sameMembers as bs
  | _, _ => false
end

mutual
/-- The value of a document: every number becomes the nearest double. -/
def ofJson : Json → Value
  | .null => .null
  | .bool b => .bool b
  | .number n => .number n.toFloat
  | .string s => .string s
  | .array items => .array (ofItems items)
  | .object members => .object (ofMembers members)
/-- The values of a sequence of documents. -/
def ofItems : List Json → List Value
  | [] => []
  | item :: rest => ofJson item :: ofItems rest
/-- The values of the members of a document. -/
def ofMembers : List (String × Json) → List (String × Value)
  | [] => []
  | (key, item) :: rest => (key, ofJson item) :: ofMembers rest
end

mutual
/-- The number of values that a value is made of, itself included. -/
def size : Value → Nat
  | .array items => 1 + sizeItems items
  | .object members => 1 + sizeMembers members
  | _ => 1
/-- The number of values in a sequence. -/
def sizeItems : List Value → Nat
  | [] => 0
  | v :: rest => size v + sizeItems rest
/-- The number of values among the members. -/
def sizeMembers : List (String × Value) → Nat
  | [] => 0
  | (_, v) :: rest => size v + sizeMembers rest
end

/-- A value takes up more than nothing. -/
theorem size_pos (v : Value) : 0 < v.size := by
  cases v <;> unfold size <;> omega

/-- An item is no larger than the sequence it is in. -/
theorem size_le_sizeItems {v : Value} {items : List Value} (h : v ∈ items) :
    v.size ≤ sizeItems items := by
  induction items with
  | nil => simp at h
  | cons item rest ih =>
    rcases List.mem_cons.1 h with rfl | h
    · simp [sizeItems]
    · have := ih h
      simp [sizeItems]
      omega

/-- A member found by its key is no larger than all members together. -/
theorem size_le_sizeMembers {key : String} {v : Value} {members : List (String × Value)}
    (h : Keyed.find? key members = some v) : v.size ≤ sizeMembers members := by
  induction members with
  | nil => simp [Keyed.find?] at h
  | cons member rest ih =>
    obtain ⟨k, w⟩ := member
    simp only [Keyed.find?] at h
    split at h
    · cases h
      simp [sizeMembers]
    · have := ih h
      simp [sizeMembers]
      omega

end Value

/-- The size of what a slot holds; nothing has size zero. -/
def Slot.size : Slot → Nat
  | none => 0
  | some v => v.size

/-- What a slot holds, in words. -/
def Slot.summary : Slot → String
  | none => "undefined"
  | some v => v.summary

end SchemaSets
