import SchemaSets.Proofs.Compiled

/-!
# Validators that put their children off

A lazy node holds what its child is built from, and not the child.  Compiling an
element does not go below a lazy element: it keeps it, as a *source*, with the entry
that it stands in and the settings of the compiler.  What is kept is compiled when
the child is built, again down to the next lazy elements only.

A validator that holds the children themselves is what comes out when everything is
built (`full`); for a compiled element that is the validator that it compiles to
(`full_plant`).
-/

namespace SchemaSets

/-- What the child of a lazy node is built from. -/
structure Source where
  element : Element
  owner : String
  policy : UnknownAttributes
  registry : Handle
deriving DecidableEq

/-- The child, with everything in it built. -/
def Source.full (source : Source) : Validator :=
  source.element.compile source.policy source.owner source.registry

/-- A validator whose lazy nodes hold what their children are built from. -/
inductive Deferred
  | any
  | literal (text : String)
  | boolean
  | string
  | number
  | enumeration (values : List String)
  | object (fields : List (String × Deferred)) (closed : Bool)
  | array (item : Deferred)
  | record (value : Deferred)
  | union (branches : List Deferred)
  | function (args : List Deferred) (returns : Option Deferred)
  | lazy (label : Option String) (source : Source)
  | reference (target owner : String) (registry : Handle)
  | optional (inner : Deferred)

namespace Deferred

instance : Inhabited Deferred := ⟨.any⟩

mutual
/-- The validator with everything in it built. -/
def full : Deferred → Validator
  | .any => .any
  | .literal text => .literal text
  | .boolean => .boolean
  | .string => .string
  | .number => .number
  | .enumeration values => .enumeration values
  | .object fields closed => .object (fullFields fields) closed
  | .array item => .array (full item)
  | .record value => .record (full value)
  | .union branches => .union (fullList branches)
  | .function args none => .function (fullList args) none
  | .function args (some returns) => .function (fullList args) (some (full returns))
  | .lazy label source => .lazy label source.full
  | .reference target owner registry => .reference target owner registry
  | .optional inner => .optional (full inner)
/-- A list of validators with everything in them built. -/
def fullList : List Deferred → List Validator
  | [] => []
  | v :: rest => full v :: fullList rest
/-- Fields with everything in them built. -/
def fullFields : List (String × Deferred) → List (String × Validator)
  | [] => []
  | (name, v) :: rest => (name, full v) :: fullFields rest
end

theorem fullList_eq_map (vs : List Deferred) : fullList vs = vs.map full := by
  induction vs with
  | nil => rfl
  | cons v vs ih => rw [fullList, ih, List.map_cons]

theorem length_fullList (vs : List Deferred) : (fullList vs).length = vs.length := by
  rw [fullList_eq_map, List.length_map]

theorem fullFields_eq_map (fields : List (String × Deferred)) :
    fullFields fields = fields.map fun field => (field.1, field.2.full) := by
  induction fields with
  | nil => rfl
  | cons field rest ih => rw [fullFields, ih, List.map_cons]

/-- What the outermost node of a validator says of the validator in which its lazy
nodes were not built. -/
def Origin : Validator → Deferred → Prop
  | .object fields closed, v => ∃ unbuilt, v = .object unbuilt closed ∧ fields = fullFields unbuilt
  | .array item, v => ∃ unbuilt, v = .array unbuilt ∧ item = unbuilt.full
  | .record value, v => ∃ unbuilt, v = .record unbuilt ∧ value = unbuilt.full
  | .union branches, v => ∃ unbuilt, v = .union unbuilt ∧ branches = fullList unbuilt
  | .function args none, v => ∃ unbuilt, v = .function unbuilt none ∧ args = fullList unbuilt
  | .function args (some returns), v =>
    ∃ unbuilt given, v = .function unbuilt (some given) ∧ args = fullList unbuilt ∧
      returns = given.full
  | .lazy label child, v => ∃ source, v = .lazy label source ∧ child = source.full
  | .reference target owner registry, v => v = .reference target owner registry
  | .optional inner, v => ∃ unbuilt, v = .optional unbuilt ∧ inner = unbuilt.full
  | _, _ => True

/-- The form of a validator shows what it was before its lazy nodes were built. -/
theorem origin_of_full_eq {v : Deferred} {whole : Validator} (h : v.full = whole) :
    Origin whole v := by
  subst h
  cases v with
  | object fields closed => exact ⟨fields, rfl, rfl⟩
  | array item => exact ⟨item, rfl, rfl⟩
  | record value => exact ⟨value, rfl, rfl⟩
  | union branches => exact ⟨branches, rfl, rfl⟩
  | lazy label source => exact ⟨source, rfl, rfl⟩
  | reference target owner registry => exact rfl
  | optional inner => exact ⟨inner, rfl, rfl⟩
  | function args returns =>
      cases returns with
      | none => exact ⟨args, rfl, rfl⟩
      | some returns => exact ⟨args, returns, rfl, rfl, rfl⟩
  | _ => trivial

end Deferred

namespace Element

/-- A validator of that mark. -/
def wrapDeferred (isOptional : Bool) (v : Deferred) : Deferred :=
  if isOptional then .optional v else v

/-- The validator of a primitive. -/
def plantSimple : SimpleKind → Deferred
  | .any => .any
  | .boolean => .boolean
  | .string => .string
  | .number => .number

mutual
/-- The validator of an element that stands in the entry `owner`; lazy elements in it
are kept as they are. -/
def plant (policy : UnknownAttributes) (owner : String) (registry : Handle) : Element → Deferred
  | .literal text o => wrapDeferred o (.literal text)
  | .simple kind o => wrapDeferred o (plantSimple kind)
  | .enumeration values o =>
    wrapDeferred o (if values.length < 2 then .any else .enumeration values)
  | .object attributes o =>
    wrapDeferred o (.object (plantAttributes policy owner registry attributes) (policy = .reject))
  | .array item o => wrapDeferred o (.array (plant policy owner registry item))
  | .record value o => wrapDeferred o (.record (plant policy owner registry value))
  | .union branches o => wrapDeferred o (.union (plantList policy owner registry branches))
  | .function args none o =>
    wrapDeferred o (.function (plantList policy owner registry args) none)
  | .function args (some returns) o =>
    wrapDeferred o (.function (plantList policy owner registry args)
      (some (plant policy owner registry returns)))
  | .lazy child o =>
    wrapDeferred o (.lazy (some (child.describe policy)) ⟨child, owner, policy, registry⟩)
  | .reference target o => wrapDeferred o (.reference target owner registry)
/-- The validators of a list of elements. -/
def plantList (policy : UnknownAttributes) (owner : String) (registry : Handle) :
    List Element → List Deferred
  | [] => []
  | e :: rest => plant policy owner registry e :: plantList policy owner registry rest
/-- The fields of a list of attributes. -/
def plantAttributes (policy : UnknownAttributes) (owner : String) (registry : Handle) :
    List (String × Element) → List (String × Deferred)
  | [] => []
  | (name, e) :: rest =>
    (name, plant policy owner registry e) :: plantAttributes policy owner registry rest
end

variable {policy : UnknownAttributes} {owner : String} {registry : Handle}

@[simp] theorem full_wrapDeferred (o : Bool) (v : Deferred) :
    (wrapDeferred o v).full = wrap o v.full := by
  cases o <;> rfl

mutual
/-- A compiled element, once everything in it is built, is the validator that the
element compiles to. -/
theorem full_plant (e : Element) :
    (e.plant policy owner registry).full = e.compile policy owner registry := by
  cases e with
  | simple kind o => cases kind <;> simp [plant, plantSimple, compile, compileSimple, Deferred.full]
  | enumeration values o =>
      by_cases hfew : values.length < 2 <;> simp [plant, compile, hfew, Deferred.full]
  | object attributes o => simp [plant, compile, Deferred.full, fullFields_plantAttributes attributes]
  | array item o => simp [plant, compile, Deferred.full, full_plant item]
  | record value o => simp [plant, compile, Deferred.full, full_plant value]
  | union branches o => simp [plant, compile, Deferred.full, fullList_plantList branches]
  | function args returns o =>
      cases returns with
      | none => simp [plant, compile, Deferred.full, fullList_plantList args]
      | some r => simp [plant, compile, Deferred.full, fullList_plantList args, full_plant r]
  | lazy child o => simp [plant, compile, Deferred.full, Source.full]
  | _ => simp [plant, compile, Deferred.full]
/-- Compiled elements, once everything in them is built, are the validators that the
elements compile to. -/
theorem fullList_plantList (es : List Element) :
    Deferred.fullList (plantList policy owner registry es) =
      compileList policy owner registry es := by
  cases es with
  | nil => rfl
  | cons e es =>
      rw [plantList, Deferred.fullList, full_plant e, fullList_plantList es, compileList]
/-- Compiled attributes, once everything in them is built, are the fields that the
attributes compile to. -/
theorem fullFields_plantAttributes (attributes : List (String × Element)) :
    Deferred.fullFields (plantAttributes policy owner registry attributes) =
      compileAttributes policy owner registry attributes := by
  cases attributes with
  | nil => rfl
  | cons a rest =>
      obtain ⟨name, e⟩ := a
      rw [plantAttributes, Deferred.fullFields, full_plant e, fullFields_plantAttributes rest,
        compileAttributes]
end

end Element

/-- The child of a lazy node, built down to its own lazy nodes. -/
def Source.build (source : Source) : Deferred :=
  source.element.plant source.policy source.owner source.registry

/-- What is built from a source becomes the whole child once everything in it is
built. -/
@[simp] theorem Source.full_build (source : Source) : source.build.full = source.full :=
  Element.full_plant source.element

end SchemaSets
