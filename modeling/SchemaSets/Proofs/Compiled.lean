import Mathlib.Logic.Relation
import SchemaSets.Element.Compile
import SchemaSets.Proofs.Nodes

/-!
# Compiled elements

A mark puts an optional validator around everything else, so the outermost
node of a validator shows the form of the element it comes from, and whether
that was marked.  `Origin` says this node by node.  A statement about compiled
validators goes back to elements through `origin_of_compile_eq` and does not
look into the compiler.
-/

namespace SchemaSets

namespace Element

variable {policy : UnknownAttributes} {owner : String} {registry : Handle} {e : Element}

@[simp] theorem wrap_false (v : Validator) : wrap false v = v := rfl

@[simp] theorem wrap_true (v : Validator) : wrap true v = .optional v := rfl

/-- The mark of an element is the outermost node of its validator. -/
theorem compile_eq_wrap (policy : UnknownAttributes) (owner : String) (registry : Handle)
    (e : Element) :
    e.compile policy owner registry =
      wrap e.isOptional ((e.withOptional false).compile policy owner registry) := by
  cases e with
  | function args returns o => cases returns <;> rfl
  | _ => rfl

/-- What the outermost node of a validator says of the element that it was
compiled from. -/
def Origin (policy : UnknownAttributes) (owner : String) (registry : Handle) :
    Validator → Element → Prop
  | .optional inner, e =>
    e.isOptional = true ∧ inner = (e.withOptional false).compile policy owner registry
  | .object fields closed, e => ∃ attributes, e = .object attributes false ∧
    fields = compileAttributes policy owner registry attributes ∧
    closed = decide (policy = .reject)
  | .array item, e => ∃ child, e = .array child false ∧
    item = child.compile policy owner registry
  | .record value, e => ∃ child, e = .record child false ∧
    value = child.compile policy owner registry
  | .union branches, e => ∃ es, e = .union es false ∧
    branches = compileList policy owner registry es
  | .function args none, e => ∃ es, e = .function es none false ∧
    args = compileList policy owner registry es
  | .function args (some returns), e => ∃ es result, e = .function es (some result) false ∧
    args = compileList policy owner registry es ∧
    returns = result.compile policy owner registry
  | .lazy label child, e => ∃ inner, e = .lazy inner false ∧
    label = some (inner.describe policy) ∧ child = inner.compile policy owner registry
  | .reference target place through, e =>
    e = .reference target false ∧ place = owner ∧ through = registry
  | _, e => e.isOptional = false

/-- The form of a validator shows the form of its element. -/
theorem origin_of_compile_eq {v : Validator} (h : e.compile policy owner registry = v) :
    Origin policy owner registry v e := by
  subst h
  rw [compile_eq_wrap]
  cases hmark : e.isOptional with
  | true => exact ⟨hmark, rfl⟩
  | false =>
      cases e with
      | simple kind o => cases kind <;> exact hmark
      | enumeration values o =>
          rw [withOptional, compile]
          split <;> exact hmark
      | function args returns o =>
          cases hmark
          cases returns with
          | none => exact ⟨args, rfl, rfl⟩
          | some returns => exact ⟨args, returns, rfl, rfl, rfl⟩
      | literal text o => exact hmark
      | object attributes o => cases hmark; exact ⟨attributes, rfl, rfl, rfl⟩
      | array child o => cases hmark; exact ⟨child, rfl, rfl⟩
      | record child o => cases hmark; exact ⟨child, rfl, rfl⟩
      | union es o => cases hmark; exact ⟨es, rfl, rfl⟩
      | lazy child o => cases hmark; exact ⟨child, rfl, rfl, rfl⟩
      | reference target o => cases hmark; exact ⟨rfl, rfl, rfl⟩

/-- A list of elements is compiled one by one. -/
theorem compileList_eq_map (es : List Element) :
    compileList policy owner registry es = es.map (compile policy owner registry) := by
  induction es with
  | nil => rfl
  | cons e es ih => rw [compileList, ih, List.map_cons]

/-- Attributes are compiled one by one under their names. -/
theorem compileAttributes_eq_map (attributes : List (String × Element)) :
    compileAttributes policy owner registry attributes =
      attributes.map fun a => (a.1, a.2.compile policy owner registry) := by
  induction attributes with
  | nil => rfl
  | cons a rest ih => rw [compileAttributes, ih, List.map_cons]

/-- The branches of a compiled union are its compiled branches. -/
theorem mem_compileList {es : List Element} {v : Validator} :
    v ∈ compileList policy owner registry es ↔
      ∃ e ∈ es, e.compile policy owner registry = v := by
  rw [compileList_eq_map, List.mem_map]

/-- The fields of a compiled object are its compiled attributes. -/
theorem mem_compileAttributes {attributes : List (String × Element)} {name : String}
    {v : Validator} :
    (name, v) ∈ compileAttributes policy owner registry attributes ↔
      ∃ a ∈ attributes, a.1 = name ∧ a.2.compile policy owner registry = v := by
  simp only [compileAttributes_eq_map, List.mem_map, Prod.mk.injEq]

/-- A compiled object has the attribute names of its element. -/
theorem keys_compileAttributes (attributes : List (String × Element)) :
    Keyed.keys (compileAttributes policy owner registry attributes) = Keyed.keys attributes := by
  rw [compileAttributes_eq_map]
  exact Keyed.keys_mapValues (fun _ => compile policy owner registry) attributes

end Element

namespace SchemaSet

variable {settings : CompilerSettings} {registry : Handle} {set : SchemaSet} {name : String}

/-- The entries of a compiled set are the compiled elements. -/
theorem get?_compile :
    (set.compile settings registry).get? name =
      (set.get? name).map fun e =>
        Entry.of name (e.compile settings.unknownAttributes name registry) := by
  have hentries : (set.compile settings registry).entries =
      Keyed.mapValues (fun name e =>
        Entry.of name (e.compile settings.unknownAttributes name registry)) set.elements := by
    simp [compile, CompiledSet.ofValidators, Keyed.mapValues]
  rw [CompiledSet.get?, hentries, Keyed.find?_mapValues, get?]

/-- An element has an entry in the compiled set. -/
theorem get?_compile_of_eq {e : Element} (h : set.get? name = some e) :
    (set.compile settings registry).get? name =
      some (Entry.of name (e.compile settings.unknownAttributes name registry)) := by
  rw [get?_compile, h, Option.map_some]

/-- The entry of an element is the validator that it compiles to. -/
theorem entry_compile_of_eq {e : Element} (h : set.get? name = some e) :
    (set.compile settings registry).entry name =
      .ok (Entry.of name (e.compile settings.unknownAttributes name registry)) := by
  rw [CompiledSet.entry, get?_compile_of_eq h]

/-- An entry of a compiled set comes from an element. -/
theorem exists_of_get?_compile {entry : Entry}
    (h : (set.compile settings registry).get? name = some entry) :
    ∃ e, set.get? name = some e ∧
      entry = Entry.of name (e.compile settings.unknownAttributes name registry) := by
  rw [get?_compile, Option.map_eq_some_iff] at h
  obtain ⟨e, he, rfl⟩ := h
  exact ⟨e, he, rfl⟩

/-- Compiling keeps the names. -/
theorem names_compile : (set.compile settings registry).names = set.names := by
  simp [compile, CompiledSet.ofValidators, CompiledSet.names, names, Keyed.keys]

end SchemaSet

/-! ## Nodes -/

/-- The validators right below a node, function signatures included. -/
def Validator.children : Validator → List Validator
  | .any | .literal _ | .boolean | .string | .number | .enumeration _ | .reference _ _ _ => []
  | .object fields _ => fields.map (·.2)
  | .array item => [item]
  | .record value => [value]
  | .union branches => branches
  | .function args returns => args ++ returns.toList
  | .lazy _ child => [child]
  | .optional inner => [inner]

/-- A validator is a node of an entry of a compiled set. -/
def CompiledSet.HasNode (set : CompiledSet) (v : Validator) : Prop :=
  ∃ name entry, set.get? name = some entry ∧
    Relation.ReflTransGen (fun node child => child ∈ node.children) entry.validator v

/-- The nodes right below a compiled element are what lies right below the
element. -/
theorem Element.children_compile {policy : UnknownAttributes} {owner : String}
    {registry : Handle} (e : Element) :
    (e.compile policy owner registry).children =
      e.beneath.map (Element.compile policy owner registry) := by
  rw [compile_eq_wrap]
  cases hmark : e.isOptional with
  | true => simp [beneath, hmark, Validator.children]
  | false =>
      cases e with
      | simple kind o => cases kind <;> simp [beneath, hmark, compile, compileSimple, withOptional,
          Validator.children]
      | enumeration values o =>
          rw [wrap_false, withOptional, compile]
          split <;> simp [beneath, hmark, Validator.children]
      | object attributes o =>
          simp [beneath, hmark, withOptional, compile, Validator.children, compileAttributes_eq_map]
      | function args returns o =>
          cases returns <;>
            simp [beneath, hmark, withOptional, compile, Validator.children, compileList_eq_map]
      | _ =>
          simp [beneath, hmark, withOptional, compile, Validator.children, compileList_eq_map]

namespace SchemaSet

variable {settings : CompilerSettings} {registry : Handle} {set : SchemaSet} {v : Validator}

/-- Every node of a compiled set is a compiled element, and has what the entries
have and what they hand down. -/
theorem exists_handed_of_hasNode {P : Element → Prop}
    (hentries : ∀ entry ∈ set.elements, P entry.2)
    (hbelow : ∀ e, P e → ∀ child ∈ e.beneath, P child)
    (h : (set.compile settings registry).HasNode v) :
    ∃ owner e, P e ∧ v = Element.compile settings.unknownAttributes owner registry e := by
  obtain ⟨name, entry, hentry, hpath⟩ := h
  refine ⟨name, ?_⟩
  induction hpath with
  | refl =>
      obtain ⟨e, he, rfl⟩ := exists_of_get?_compile hentry
      exact ⟨e, hentries _ (Keyed.mem_of_find? he), rfl⟩
  | tail _ hchild ih =>
      obtain ⟨e, hP, rfl⟩ := ih
      rw [Element.children_compile] at hchild
      obtain ⟨child, hmem, rfl⟩ := List.mem_map.1 hchild
      exact ⟨child, hbelow e hP child hmem, rfl⟩

/-- Every node of a compiled set is a compiled element. -/
theorem exists_of_hasNode (h : (set.compile settings registry).HasNode v) :
    ∃ owner e, v = Element.compile settings.unknownAttributes owner registry e := by
  obtain ⟨owner, e, -, rfl⟩ := exists_handed_of_hasNode (P := fun _ => True)
    (fun _ _ => trivial) (fun _ _ _ _ => trivial) h
  exact ⟨owner, e, rfl⟩

end SchemaSet

end SchemaSets
