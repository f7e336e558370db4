import SchemaSets.Element.Basic
import SchemaSets.Error
import SchemaSets.Json.Reader
import SchemaSets.Json.Shape

/-!
# Reading elements from documents

An element is written as an object with a tag under `type` and its parts under
other keys, or as an array of the tag and the parts in a fixed order.  The
parts are `definition` and `optional`, or for a function `args`, `returns` and
`optional`.  Only `definition` must be there: an element is not optional by
default, and a function has no arguments and returns nothing in particular.
Keys of other names are passed over.  An array is read as the object that names
its items by position.  The tag is the name of a form; an element inside another
may also give the position of its form in the list of forms.

A document can be malformed in several places at once.  The tag is looked at
first.  The parts of an object are then looked at in key order and those of an
array in sequence, each through to its innermost element, and only after them
is a missing or surplus part noticed; so the fault that is told is the first in
that order.  Its path tells the tag of the outermost element from everything
else.
-/

namespace SchemaSets

/-- The name of a form in messages about its length. -/
def Form.title : Form → String
  | .literal => "Literal"
  | .simple => "SimpleType"
  | .enumeration => "Enum"
  | .object => "Object"
  | .array => "Array"
  | .record => "Record"
  | .union => "Union"
  | .function => "Function"
  | .lazy => "Lazy"
  | .reference => "SchemaReference"

/-- The names of the parts of a form, in the order of the array notation. -/
def Form.partNames : Form → List String
  | .function => ["args", "returns", "optional"]
  | _ => ["definition", "optional"]

namespace Element

/-- Where in a document its tag stands. -/
inductive TagPlace
  | member
  | first
deriving DecidableEq, Repr

/-- A malformation, and the place of the tag if the tag is at fault. -/
structure Fault where
  tag : Option TagPlace
  malformation : Malformation

/-- The path of a fault: the tag of the outermost element, or the element as a
whole. -/
def Fault.path (fault : Fault) : String :=
  match fault.tag with
  | some .member => "type"
  | some .first => "[0]"
  | none => "."

/-- A fault elsewhere than at the tag. -/
def elsewhere {α : Type} : Except Malformation α → Except Fault α
  | .ok a => .ok a
  | .error malformation => .error ⟨none, malformation⟩

/-- A fault of an inner element, whose place is not told. -/
def inner {α : Type} : Except Fault α → Except Malformation α
  | .ok a => .ok a
  | .error fault => .error fault.malformation

/-- How an element stands in a document: by itself, or inside another. -/
inductive Standing
  | outermost
  | inside
deriving DecidableEq, Repr

/-- The form that a tag names. -/
def chooseForm (standing : Standing) : Json → Except Malformation Form
  | .string name => Json.choose Form.choices name
  | .number (.integer n) =>
    if standing = .inside ∧ 0 ≤ n then Json.chooseAt Form.choices n.toNat
    else .error (.invalidType (.int n) "variant identifier")
  | other => .error (.invalidType other "variant identifier")

/-- The form that a tag names, or the fault of the tag. -/
def readTag (standing : Standing) (place : TagPlace) (tag : Json) : Except Fault Form :=
  match chooseForm standing tag with
  | .ok form => .ok form
  | .error malformation => .error ⟨some place, malformation⟩

/-- A document taken apart: the form, the named parts, what to say when the
definition is missing, and what to say when there are too many parts. -/
structure Layout where
  form : Form
  parts : List (String × Json)
  lacking : Malformation
  surplus : Option Malformation

/-- The layout of an array without its tag. -/
def layoutOfItems (form : Form) (items : List Json) : Layout :=
  let names := form.partNames
  { form := form
    parts := names.zip items
    lacking := .invalidLength 0
      ("struct variant SchemaElement::" ++ form.title ++ " with 2 elements")
    surplus :=
      if names.length < items.length then
        some (.invalidLength items.length (toString names.length ++ " elements in sequence"))
      else none }

/-- Takes a document apart. -/
def layout (standing : Standing) : Json → Except Fault Layout
  | .object members =>
    match Keyed.find? "type" members with
    | none => .error ⟨none, .missingField "type"⟩
    | some tag =>
      match readTag standing .member tag with
      | .error fault => .error fault
      | .ok form => .ok ⟨form, members, .missingField "definition", none⟩
  | .array [] => .error ⟨none, .missingField "type"⟩
  | .array (tag :: items) =>
    match readTag standing .first tag with
    | .error fault => .error fault
    | .ok form => .ok (layoutOfItems form items)
  | other => .error ⟨none, .invalidType other "internally tagged enum SchemaElement"⟩

/-- The parts of a document are smaller than the document. -/
theorem sizeMembers_layout_lt {standing : Standing} {document : Json} {l : Layout}
    (h : layout standing document = .ok l) :
    Json.sizeMembers l.parts < document.size := by
  cases document with
  | object members =>
    simp only [layout] at h
    split at h
    · cases h
    · split at h
      · cases h
      · cases h
        simp [Json.size]
  | array items =>
    cases items with
    | nil => simp [layout] at h
    | cons tag items =>
      simp only [layout] at h
      split at h
      · cases h
      · rename_i form _
        cases h
        have := Json.sizeMembers_zip_le form.partNames items
        simp only [layoutOfItems, Json.size, Json.sizeItems]
        omega
  | _ => simp [layout] at h

/-- The parts that were read so far. -/
structure Draft where
  definition : Option Element := none
  args : List Element := []
  returns : Option Element := none
  isOptional : Bool := false

/-- The element of a draft: a function needs no part at all. -/
def Draft.finish (draft : Draft) (l : Layout) : Except Malformation Element :=
  let complete : Except Malformation Element := match l.form, draft.definition with
    | .function, _ => .ok (.function draft.args draft.returns draft.isOptional)
    | _, some e => .ok (e.withOptional draft.isOptional)
    | _, none => .error l.lacking
  match complete, l.surplus with
  | .ok _, some malformation => .error malformation
  | result, _ => result

/-- A definition that holds no other element. -/
def readLeaf : Form → Json → Except Malformation Element
  | .literal, document => do .ok (.literal (← document.asString) false)
  | .simple, document => do
    .ok (.simple (← Json.asChoice SimpleKind.choices Json.isEmpty document) false)
  | .enumeration, document => do .ok (.enumeration (← document.asStrings) false)
  | _, document => do .ok (.reference (← document.asString) false)

mutual
/-- Reads an element. -/
def read (standing : Standing) (document : Json) : Except Fault Element :=
  match _h : layout standing document with
  | .error fault => .error fault
  | .ok l =>
    elsewhere do
      let draft ← readParts l.form {} l.parts
      draft.finish l
termination_by (document.size, 0)
decreasing_by
  have := sizeMembers_layout_lt _h
  exact Prod.Lex.left _ _ this
/-- Reads the parts of an element in the order given. -/
def readParts (form : Form) (draft : Draft) :
    List (String × Json) → Except Malformation Draft
  | [] => .ok draft
  | (key, part) :: rest =>
    if key = "optional" then do
      let isOptional ← part.asBool
      readParts form { draft with isOptional := isOptional } rest
    else if form = .function then
      if key = "args" then do
        let args ← readSequence part
        readParts form { draft with args := args } rest
      else if key = "returns" then
        if part.isNull then readParts form { draft with returns := none } rest
        else do
          let returns ← inner (read .inside part)
          readParts form { draft with returns := some returns } rest
      else readParts form draft rest
    else if key = "definition" then do
      let definition ← readDefinition form part
      readParts form { draft with definition := some definition } rest
    else readParts form draft rest
termination_by parts => (Json.sizeMembers parts, 2)
decreasing_by
  all_goals
    have := Json.size_pos part
    simp only [Json.sizeMembers]
    omega
/-- Reads a definition; the element that comes out is not yet marked. -/
def readDefinition (form : Form) (document : Json) : Except Malformation Element :=
  match form with
  | .object =>
    match document with
    | .object members => do .ok (.object (← readAttributes members) false)
    | other => .error (.invalidType other "a map")
  | .array => do .ok (.array (← inner (read .inside document)) false)
  | .record => do .ok (.record (← inner (read .inside document)) false)
  | .lazy => do .ok (.lazy (← inner (read .inside document)) false)
  | .union => do .ok (.union (← readSequence document) false)
  | form => readLeaf form document
termination_by (document.size, 1)
decreasing_by
  · exact Prod.Lex.left _ _ (by simp [Json.size])
  all_goals exact Prod.Lex.right _ (by decide)
/-- Reads a sequence of elements. -/
def readSequence (document : Json) : Except Malformation (List Element) :=
  match document with
  | .array items => readItems items
  | other => .error (.invalidType other "a sequence")
termination_by (document.size, 0)
decreasing_by
  exact Prod.Lex.left _ _ (by simp [Json.size])
/-- Reads the elements of a list of documents. -/
def readItems : List Json → Except Malformation (List Element)
  | [] => .ok []
  | item :: rest => do
    let e ← inner (read .inside item)
    .ok (e :: (← readItems rest))
termination_by items => (Json.sizeItems items, 1)
decreasing_by
  all_goals
    simp only [Json.sizeItems]
    have := Json.size_pos item
    omega
/-- Reads attributes. -/
def readAttributes : List (String × Json) → Except Malformation (List (String × Element))
  | [] => .ok []
  | (name, item) :: rest => do
    let e ← inner (read .inside item)
    .ok ((name, e) :: (← readAttributes rest))
termination_by members => (Json.sizeMembers members, 1)
decreasing_by
  all_goals
    simp only [Json.sizeMembers]
    have := Json.size_pos item
    omega
end

/-- The element of a document, read as the entry of that name. -/
def ofJson (name : String) (document : Json) : Except SchemaError Element :=
  match read .outermost document with
  | .ok element => .ok element
  | .error fault => .error (.malformedElement name fault.path fault.malformation.text)

end Element

namespace SchemaSet

/-- Reads the entries of a set in name order; the first fault ends it. -/
def readEntries : List (String × Json) → Except SchemaError (List (String × Element))
  | [] => .ok []
  | (name, document) :: rest => do
    let element ← Element.ofJson name document
    .ok ((name, element) :: (← readEntries rest))

/-- The set of a document. -/
def ofJson : Json → Except SchemaError SchemaSet
  | .object members => do .ok ⟨← readEntries members⟩
  | _ => .error (.notAnObject "schema set")

/-- The set of a JSON text. -/
def ofText (text : String) : Except SchemaError SchemaSet :=
  match Json.parse text with
  | .ok document => ofJson document
  | .error cause => .error (.text cause)

end SchemaSet
end SchemaSets
