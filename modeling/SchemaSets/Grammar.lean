import SchemaSets.Element.Compile
import SchemaSets.Validator.Walk

/-!
# The grammar of elements

What a document must look like to be an element, said in elements: one entry
for each form, their union, and the mapping from names to elements.  Compiled,
the set checks documents before they are read.

The grammar is stricter than the reader in one point: what a lazy element puts
off must be a function.
-/

namespace SchemaSets.Grammar

/-- The entry for elements of any form. -/
def elementName : String := "ElementSchema"

/-- The entry for sets of elements. -/
def setName : String := "ElementSetSchema"

/-- The entry for the elements of a form. -/
def formName : Form → String
  | .array => "ArraySchema"
  | .enumeration => "EnumSchema"
  | .function => "FunctionSchema"
  | .lazy => "LazySchema"
  | .literal => "LiteralSchema"
  | .object => "ObjectSchema"
  | .record => "RecordSchema"
  | .reference => "ReferenceSchema"
  | .simple => "SimpleTypeSchema"
  | .union => "UnionSchema"

/-- The forms in the order in which a document is tried against them. -/
def forms : List Form :=
  [.array, .enumeration, .function, .lazy, .literal, .object, .record, .reference, .simple,
    .union]

/-- Whatever an element may be. -/
def anyElement : Element := .reference elementName false

/-- A string. -/
def aString : Element := .simple .string false

/-- What the documents of a form hold besides their tag and mark. -/
def parts : Form → List (String × Element)
  | .literal | .reference => [("definition", aString)]
  | .simple => [("definition", .enumeration (SimpleKind.choices.map (·.1)) false)]
  | .enumeration => [("definition", .array aString false)]
  | .object => [("definition", .record anyElement false)]
  | .array | .record => [("definition", anyElement)]
  | .union => [("definition", .array anyElement false)]
  | .function => [("args", .array anyElement true), ("returns", anyElement.optional)]
  | .lazy => [("definition", .reference (formName .function) false)]

/-- The documents of a form. -/
def ofForm (form : Form) : Element :=
  .ofAttributes
    ([("type", .literal form.tag false), ("optional", .simple .boolean true)] ++ parts form)

/-- The grammar. -/
def elements : SchemaSet :=
  .ofList (forms.map (fun form => (formName form, ofForm form)) ++
    [(elementName, .union (forms.map fun form => .reference (formName form) false) false),
      (setName, .record anyElement false)])

/-- The handle through which the grammar refers to itself. -/
def registry : Handle := .ofSet 0

/-- The compiled grammar. -/
def compiled : CompiledSet := elements.compile {} registry

/-- A shelf that holds nothing but the compiled grammar. -/
def shelf : Shelf := ({} : Shelf).put 0 compiled

/-- The report on a value under an entry of the grammar. -/
def validate (name : String) (value : Value) : Except SchemaError Report := do
  let entry ← compiled.entry name
  (entry.validator.validate shelf value).mapError .reference

/-- The report on a document that should be an element. -/
def validateElement (document : Json) : Except SchemaError Report :=
  validate elementName (.ofJson document)

/-- The report on a document that should be a set of elements. -/
def validateSet (document : Json) : Except SchemaError Report :=
  validate setName (.ofJson document)

end SchemaSets.Grammar
