import SchemaSets.Keyed

/-!
# JSON documents

A document is what a JSON text stands for.  Members are kept in key order, so
the order in which a text lists them is not part of its document.  A number is
an integer or a double, as its text was written: `1` and `1.0` are different
documents, although they stand for the same value.
-/

namespace SchemaSets

/-- A number of a document.  Integers lie between `-2 ^ 63` and `2 ^ 64`. -/
inductive Json.Number
  | integer (value : Int)
  | double (value : Float)
deriving Repr

/-- A JSON document. -/
inductive Json
  | null
  | bool (value : Bool)
  | number (value : Json.Number)
  | string (value : String)
  | array (items : List Json)
  | object (members : List (String × Json))

namespace Json

instance : Inhabited Json := ⟨.null⟩

/-- The double nearest to an integer of a document. -/
def doubleOfInt (n : Int) : Float :=
  if 0 ≤ n then n.toNat.toUInt64.toFloat else -((-n).toNat.toUInt64.toFloat)

/-- The double that a number stands for. -/
def Number.toFloat : Number → Float
  | .integer n => doubleOfInt n
  | .double x => x

/-- An object from pairs in any order; of two with one key the later wins. -/
def ofPairs (pairs : List (String × Json)) : Json := .object (Keyed.ofList pairs)

/-- The integer document. -/
def int (n : Int) : Json := .number (.integer n)

/-- An array of strings. -/
def strings (texts : List String) : Json := .array (texts.map .string)

/-- The member of an object at a key. -/
def get? (key : String) : Json → Option Json
  | .object members => Keyed.find? key members
  | _ => none

/-- The text of a string document. -/
def string? : Json → Option String
  | .string s => some s
  | _ => none

/-- The items of an array document. -/
def array? : Json → Option (List Json)
  | .array items => some items
  | _ => none

/-- The members of an object document. -/
def object? : Json → Option (List (String × Json))
  | .object members => some members
  | _ => none

mutual
/-- Equality of documents; doubles are compared as numbers. -/
def same : Json → Json → Bool
  | .null, .null => true
  | .bool a, .bool b => a == b
  | .number (.integer a), .number (.integer b) => a == b
  | .number (.double a), .number (.double b) => a == b
  | .string a, .string b => a == b
  | .array a, .array b => sameItems a b
  | .object a, .object b => sameMembers a b
  | _, _ => false
/-- Equality of two sequences of documents. -/
def sameItems : List Json → List Json → Bool
  | [], [] => true
  | a :: as, b :: bs => same a b && sameItems as bs
  | _, _ => false
/-- Equality of two lists of members. -/
def sameMembers : List (String × Json) → List (String × Json) → Bool
  | [], [] => true
  | (k, a) :: as, (l, b) :: bs => k == l && same a b && sameMembers as bs
  | _, _ => false
end

mutual
/-- How many arrays and objects lie around the innermost point of a document,
each container counting itself. -/
def depth : Json → Nat
  | .array items => 1 + depthItems items
  | .object members => 1 + depthMembers members
  | _ => 0
/-- The greatest depth among the items. -/
def depthItems : List Json → Nat
  | [] => 0
  | item :: rest => max (depth item) (depthItems rest)
/-- The greatest depth among the members. -/
def depthMembers : List (String × Json) → Nat
  | [] => 0
  | (_, value) :: rest => max (depth value) (depthMembers rest)
end

mutual
/-- The number of documents that a document is made of, itself included. -/
def size : Json → Nat
  | .array items => 1 + sizeItems items
  | .object members => 1 + sizeMembers members
  | _ => 1
/-- The number of documents in a sequence. -/
def sizeItems : List Json → Nat
  | [] => 0
  | item :: rest => size item + sizeItems rest
/-- The number of documents among the members. -/
def sizeMembers : List (String × Json) → Nat
  | [] => 0
  | (_, value) :: rest => size value + sizeMembers rest
end

/-- A document takes up more than nothing. -/
theorem size_pos (document : Json) : 0 < document.size := by
  cases document <;> unfold size <;> omega

/-- A member found by its key is no larger than all members together. -/
theorem size_le_sizeMembers {key : String} {value : Json} {members : List (String × Json)}
    (h : Keyed.find? key members = some value) : value.size ≤ sizeMembers members := by
  induction members with
  | nil => simp [Keyed.find?] at h
  | cons member rest ih =>
    obtain ⟨k, v⟩ := member
    simp only [Keyed.find?] at h
    split at h
    · cases h
      simp [sizeMembers]
    · have := ih h
      simp [sizeMembers]
      omega

/-- An item is no larger than all items together. -/
theorem size_le_sizeItems {item : Json} {items : List Json} (h : item ∈ items) :
    item.size ≤ sizeItems items := by
  induction items with
  | nil => cases h
  | cons first rest ih =>
    rw [sizeItems]
    rcases List.mem_cons.1 h with rfl | hrest
    · exact Nat.le_add_right ..
    · exact Nat.le_trans (ih hrest) (Nat.le_add_left ..)

/-- Naming some of the items of a sequence adds nothing to its size. -/
theorem sizeMembers_zip_le (names : List String) (items : List Json) :
    sizeMembers (names.zip items) ≤ sizeItems items := by
  induction names generalizing items with
  | nil => simp [sizeMembers]
  | cons name names ih =>
    cases items with
    | nil => simp [sizeMembers]
    | cons item items =>
      have := ih items
      simp [sizeMembers, sizeItems]
      omega

end Json
end SchemaSets
