import SchemaSets.Keyed

/-!
# Schema elements

An element describes values: one literal string, a primitive, one of several
strings, an object by its attributes, a sequence or a string-keyed record by
what its items are, a choice between branches, a function, an element whose
compilation is put off, or whatever another element of the same set describes.
Every element may be marked optional, and then also describes a value that is
not there.

A set of elements is a mapping from names to elements.  A reference names an
entry of its own set, and nothing requires that entry to exist: what a missing
entry means is decided when it is needed.
-/

namespace SchemaSets

/-- The primitives. -/
inductive SimpleKind
  | any
  | boolean
  | string
  | number
deriving DecidableEq, Repr

/-- The name of a primitive. -/
def SimpleKind.word : SimpleKind → String
  | .any => "any"
  | .boolean => "boolean"
  | .string => "string"
  | .number => "number"

/-- The primitives by name. -/
def SimpleKind.choices : List (String × SimpleKind) :=
  [SimpleKind.any, .boolean, .string, .number].map fun kind => (kind.word, kind)

/-- An element of a schema. -/
inductive Element
  | literal (text : String) (isOptional : Bool)
  | simple (kind : SimpleKind) (isOptional : Bool)
  | enumeration (values : List String) (isOptional : Bool)
  | object (attributes : List (String × Element)) (isOptional : Bool)
  | array (item : Element) (isOptional : Bool)
  | record (value : Element) (isOptional : Bool)
  | union (branches : List Element) (isOptional : Bool)
  | function (args : List Element) (returns : Option Element) (isOptional : Bool)
  | lazy (child : Element) (isOptional : Bool)
  | reference (target : String) (isOptional : Bool)

/-- The ten forms of an element. -/
inductive Form
  | literal
  | simple
  | enumeration
  | object
  | array
  | record
  | union
  | function
  | lazy
  | reference
deriving DecidableEq, Repr

/-- The tag that names a form in a document. -/
def Form.tag : Form → String
  | .literal => "literal"
  | .simple => "simpleType"
  | .enumeration => "enum"
  | .object => "object"
  | .array => "array"
  | .record => "record"
  | .union => "union"
  | .function => "function"
  | .lazy => "lazy"
  | .reference => "schemaReference"

/-- The forms by tag, in the order in which they are listed to a reader. -/
def Form.choices : List (String × Form) :=
  [Form.literal, .simple, .enumeration, .object, .array, .record, .union, .function, .lazy,
    .reference].map fun form => (form.tag, form)

namespace Element

instance : Inhabited Element := ⟨.simple .any false⟩

/-- The form of an element. -/
def form : Element → Form
  | .literal .. => .literal
  | .simple .. => .simple
  | .enumeration .. => .enumeration
  | .object .. => .object
  | .array .. => .array
  | .record .. => .record
  | .union .. => .union
  | .function .. => .function
  | .lazy .. => .lazy
  | .reference .. => .reference

/-- Whether an element is marked optional. -/
def isOptional : Element → Bool
  | .literal _ o | .simple _ o | .enumeration _ o | .object _ o | .array _ o | .record _ o
  | .union _ o | .function _ _ o | .lazy _ o | .reference _ o => o

/-- The same element with the given mark. -/
def withOptional (o : Bool) : Element → Element
  | .literal text _ => .literal text o
  | .simple kind _ => .simple kind o
  | .enumeration values _ => .enumeration values o
  | .object attributes _ => .object attributes o
  | .array item _ => .array item o
  | .record value _ => .record value o
  | .union branches _ => .union branches o
  | .function args returns _ => .function args returns o
  | .lazy child _ => .lazy child o
  | .reference target _ => .reference target o

/-- The same element, marked optional. -/
def optional (e : Element) : Element := e.withOptional true

/-- An object element from attributes in any order; of two with one name the
later wins. -/
def ofAttributes (attributes : List (String × Element)) : Element :=
  .object (Keyed.ofList attributes) false

/-- The primitive of a primitive element. -/
def simpleKind? : Element → Option SimpleKind
  | .simple kind _ => some kind
  | _ => none

/-! ## Equality -/

mutual
/-- Equality of elements as a computation. -/
def beq : Element → Element → Bool
  | .literal a o, .literal b p => a == b && o == p
  | .simple a o, .simple b p => a == b && o == p
  | .enumeration a o, .enumeration b p => a == b && o == p
  | .object a o, .object b p => beqAttributes a b && o == p
  | .array a o, .array b p => beq a b && o == p
  | .record a o, .record b p => beq a b && o == p
  | .union a o, .union b p => beqList a b && o == p
  | .function a (some r) o, .function b (some s) p => beqList a b && beq r s && o == p
  | .function a none o, .function b none p => beqList a b && o == p
  | .lazy a o, .lazy b p => beq a b && o == p
  | .reference a o, .reference b p => a == b && o == p
  | _, _ => false
/-- Equality of two lists of elements. -/
def beqList : List Element → List Element → Bool
  | [], [] => true
  | a :: as, b :: bs => beq a b && beqList as bs
  | _, _ => false
/-- Equality of two lists of attributes. -/
def beqAttributes : List (String × Element) → List (String × Element) → Bool
  | [], [] => true
  | (k, a) :: as, (l, b) :: bs => k == l && beq a b && beqAttributes as bs
  | _, _ => false
end

mutual
/-- The computed equality is equality. -/
theorem beq_iff (a b : Element) : beq a b = true ↔ a = b := by
  cases a with
  | object as o => cases b <;> simp [beq, beqAttributes_iff as]
  | array a o => cases b <;> simp [beq, beq_iff a]
  | record a o => cases b <;> simp [beq, beq_iff a]
  | union as o => cases b <;> simp [beq, beqList_iff as]
  | lazy a o => cases b <;> simp [beq, beq_iff a]
  | function as r o =>
    cases b with
    | function bs s p =>
      cases r with
      | none => cases s <;> simp [beq, beqList_iff as]
      | some r => cases s <;> simp [beq, beqList_iff as, beq_iff r, and_assoc]
    | _ => cases r <;> simp [beq]
  | _ => cases b <;> simp [beq]
/-- The computed equality of lists is equality. -/
theorem beqList_iff (as bs : List Element) : beqList as bs = true ↔ as = bs := by
  cases as with
  | nil => cases bs <;> simp [beqList]
  | cons a as => cases bs <;> simp [beqList, beq_iff a, beqList_iff as]
/-- The computed equality of attributes is equality. -/
theorem beqAttributes_iff (as bs : List (String × Element)) :
    beqAttributes as bs = true ↔ as = bs := by
  cases as with
  | nil => cases bs <;> simp [beqAttributes]
  | cons a as =>
    obtain ⟨k, a⟩ := a
    cases bs with
    | nil => simp [beqAttributes]
    | cons b bs =>
      obtain ⟨l, b⟩ := b
      simp [beqAttributes, beq_iff a, beqAttributes_iff as]
end

instance : DecidableEq Element := fun a b => decidable_of_iff _ (beq_iff a b)

end Element

/-- A set of named elements, in name order. -/
structure SchemaSet where
  elements : List (String × Element)
deriving DecidableEq

namespace SchemaSet

/-- The set without entries. -/
def empty : SchemaSet := ⟨[]⟩

/-- The element of a name. -/
def get? (set : SchemaSet) (name : String) : Option Element := Keyed.find? name set.elements

/-- Whether the set has an entry of that name. -/
def contains (set : SchemaSet) (name : String) : Bool := Keyed.contains name set.elements

/-- The set with one more entry; an earlier entry of that name gives way. -/
def insert (set : SchemaSet) (name : String) (element : Element) : SchemaSet :=
  ⟨Keyed.insert name element set.elements⟩

/-- The names of the entries, in order. -/
def names (set : SchemaSet) : List String := Keyed.keys set.elements

/-- The number of entries. -/
def size (set : SchemaSet) : Nat := set.elements.length

/-- A set from entries in any order; of two with one name the later wins. -/
def ofList (entries : List (String × Element)) : SchemaSet := ⟨Keyed.ofList entries⟩

end SchemaSet
end SchemaSets
