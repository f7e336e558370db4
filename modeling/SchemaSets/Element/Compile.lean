import SchemaSets.Registry

/-!
# Compiling elements

The compiler turns each element into the validator of its form.  A reference
becomes a node that keeps its target, the entry it stands in and the handle of
the set being built; nothing is looked up, so a set compiles in one pass
whatever its references are.

An enumeration of fewer than two strings does not restrict anything.  Objects
are closed when unknown attributes are rejected.  A lazy element becomes a lazy
node whose label is told from the element.
-/

namespace SchemaSets

namespace Element

/-- A validator of that mark. -/
def wrap (isOptional : Bool) (v : Validator) : Validator :=
  if isOptional then .optional v else v

/-- The validator of a primitive. -/
def compileSimple : SimpleKind → Validator
  | .any => .any
  | .boolean => .boolean
  | .string => .string
  | .number => .number

mutual
/-- The validator of an element that stands in the entry `owner`. -/
def compile (policy : UnknownAttributes) (owner : String) (registry : Handle) :
    Element → Validator
  | .literal text o => wrap o (.literal text)
  | .simple kind o => wrap o (compileSimple kind)
  | .enumeration values o =>
    wrap o (if values.length < 2 then .any else .enumeration values)
  | .object attributes o =>
    wrap o (.object (compileAttributes policy owner registry attributes) (policy = .reject))
  | .array item o => wrap o (.array (compile policy owner registry item))
  | .record value o => wrap o (.record (compile policy owner registry value))
  | .union branches o => wrap o (.union (compileList policy owner registry branches))
  | .function args none o => wrap o (.function (compileList policy owner registry args) none)
  | .function args (some returns) o =>
    wrap o (.function (compileList policy owner registry args)
      (some (compile policy owner registry returns)))
  | .lazy child o =>
    wrap o (.lazy (some (child.describe policy)) (compile policy owner registry child))
  | .reference target o => wrap o (.reference target owner registry)
/-- The validators of a list of elements. -/
def compileList (policy : UnknownAttributes) (owner : String) (registry : Handle) :
    List Element → List Validator
  | [] => []
  | e :: rest => compile policy owner registry e :: compileList policy owner registry rest
/-- The fields of a list of attributes. -/
def compileAttributes (policy : UnknownAttributes) (owner : String) (registry : Handle) :
    List (String × Element) → List (String × Validator)
  | [] => []
  | (name, e) :: rest =>
    (name, compile policy owner registry e) :: compileAttributes policy owner registry rest
end

end Element

namespace SchemaSet

/-- The compiled set, whose references go through `registry`. -/
def compile (settings : CompilerSettings) (registry : Handle) (set : SchemaSet) : CompiledSet :=
  .ofValidators (set.elements.map fun e =>
    (e.1, e.2.compile settings.unknownAttributes e.1 registry))

end SchemaSet
end SchemaSets
