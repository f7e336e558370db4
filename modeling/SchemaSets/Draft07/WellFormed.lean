import SchemaSets.Draft07.Reference
import SchemaSets.Text.Pattern.Reader

/-!
# Well-formed documents

What draft-07 asks of a document before it can be used: every keyword it knows
has a value of the right kind, and what stands where a schema is expected is
one.  Keywords that it does not know may hold anything.

The kinds are those of the meta-schema.  The names of pattern properties have to
be patterns.  Bounds on numbers, and the syntax of the other keyword that holds
a pattern, are left out: no exported document has such values.
-/

namespace SchemaSets.Draft07

/-- The names of the primitive types. -/
def typeNames : List String :=
  ["array", "boolean", "integer", "null", "number", "object", "string"]

/-- What a keyword of draft-07 holds. -/
inductive Keyword
  | schema
  | schemaOrList
  | schemaList
  | schemaMap
  | patternMap
  | dependencies
  | reference
  | typeName
  | strings
  | list
  | text
  | number
  | boolean
  | anything
deriving DecidableEq, Repr

/-- The keywords of draft-07. -/
def keywords : List (String × Keyword) :=
  [("$comment", .text), ("$id", .text), ("$ref", .reference), ("$schema", .text),
   ("additionalItems", .schema), ("additionalProperties", .schema), ("allOf", .schemaList),
   ("anyOf", .schemaList), ("contains", .schema), ("contentEncoding", .text),
   ("contentMediaType", .text), ("definitions", .schemaMap), ("dependencies", .dependencies),
   ("description", .text), ("else", .schema), ("enum", .list), ("examples", .list),
   ("exclusiveMaximum", .number), ("exclusiveMinimum", .number), ("format", .text),
   ("if", .schema), ("items", .schemaOrList), ("maxItems", .number), ("maxLength", .number),
   ("maxProperties", .number), ("maximum", .number), ("minItems", .number),
   ("minLength", .number), ("minProperties", .number), ("minimum", .number),
   ("multipleOf", .number), ("not", .schema), ("oneOf", .schemaList), ("pattern", .text),
   ("patternProperties", .patternMap), ("properties", .schemaMap), ("propertyNames", .schema),
   ("readOnly", .boolean), ("required", .strings), ("then", .schema), ("title", .text),
   ("type", .typeName), ("uniqueItems", .boolean)]

/-- What a keyword holds; one that is not known may hold anything. -/
def keyword (name : String) : Keyword := (Keyed.find? name keywords).getD .anything

/-- Whether a document names a primitive type. -/
def isTypeName : Json → Bool
  | .string s => typeNames.contains s
  | _ => false

/-- Whether a document is a string. -/
def isString : Json → Bool
  | .string _ => true
  | _ => false

/-- Whether no two strings of a list are equal. -/
def areDistinct (texts : List String) : Bool := decide texts.Nodup

/-- Whether a document is a list of different strings. -/
def isStringSet : Json → Bool
  | .array items => items.all isString && areDistinct (items.filterMap Json.string?)
  | _ => false

/-- Whether a document is the value of `type`: a name or a list of different
names. -/
def isType : Json → Bool
  | .array items =>
    !items.isEmpty && items.all isTypeName && areDistinct (items.filterMap Json.string?)
  | document => isTypeName document

/-- Whether all texts of a list are patterns. -/
def arePatterns (texts : List String) : Bool :=
  texts.all fun text => (Text.Pattern.read? text).isSome

/-- Whether a document is a value that holds no schema. -/
def isPlain : Keyword → Json → Bool
  | .reference, .string s => isReference s
  | .typeName, document => isType document
  | .strings, document => isStringSet document
  | .list, .array _ => true
  | .text, .string _ => true
  | .number, .number _ => true
  | .boolean, .bool _ => true
  | .anything, _ => true
  | _, _ => false

mutual
/-- Whether a document is a schema. -/
def isSchema : Json → Bool
  | .bool _ => true
  | .object members => areKeywords members
  | _ => false
/-- Whether the members of a schema suit their keywords. -/
def areKeywords : List (String × Json) → Bool
  | [] => true
  | (name, value) :: rest => suits (keyword name) value && areKeywords rest
/-- Whether a value suits a keyword. -/
def suits (kind : Keyword) : Json → Bool
  | .object members =>
    match kind with
    | .schema | .schemaOrList => areKeywords members
    | .schemaMap => areSchemasByName members
    | .patternMap => areSchemasByName members && arePatterns (Keyed.keys members)
    | .dependencies => areDependencies members
    | kind => isPlain kind (.object members)
  | .array items =>
    match kind with
    | .schemaList | .schemaOrList => !items.isEmpty && areSchemas items
    | kind => isPlain kind (.array items)
  | .bool b =>
    match kind with
    | .schema | .schemaOrList => true
    | kind => isPlain kind (.bool b)
  | .null => isPlain kind .null
  | .number n => isPlain kind (.number n)
  | .string s => isPlain kind (.string s)
/-- Whether all documents of a list are schemas. -/
def areSchemas : List Json → Bool
  | [] => true
  | item :: rest => isSchema item && areSchemas rest
/-- Whether all members are schemas. -/
def areSchemasByName : List (String × Json) → Bool
  | [] => true
  | (_, value) :: rest => isSchema value && areSchemasByName rest
/-- Whether all members are schemas or lists of different strings. -/
def areDependencies : List (String × Json) → Bool
  | [] => true
  | (_, value) :: rest => (isSchema value || isStringSet value) && areDependencies rest
end

end SchemaSets.Draft07
