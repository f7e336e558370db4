import SchemaSets.Dependency
import SchemaSets.Proofs.Compiled

/-!
# The references of a validator

A validator is tied to other validators only by its references.  Each is a
`Link`: what it names, the entry it stands in, and the handle that resolves it.
A value is never checked against a function's signature, so links in signatures
do not count.

A compiled set is closed in on itself.  Its links are the targets of the
elements, each seen from its own entry, and all go through the one handle that
the set was compiled for (`links_compile`).  `Stands` keeps what later modules
need of this: behind a handle on a shelf there is a set whose links go through
that handle and no other, so within the set a name has one meaning.  It is this one
meaning, and not the one handle, that walks are told by (`Resolves`).
-/

namespace SchemaSets

/-- A reference as it stands in a validator. -/
structure Link where
  target : String
  owner : String
  registry : Handle

/-- What a link leads to. -/
def Shelf.follow (shelf : Shelf) (link : Link) : Except ReferenceError Entry :=
  shelf.resolve link.registry link.target link.owner

namespace Validator

mutual
/-- The links of a validator, function signatures left out. -/
def links : Validator → List Link
  | .any | .literal _ | .boolean | .string | .number | .enumeration _ | .function _ _ => []
  | .object fields _ => linksOfFields fields
  | .array item => links item
  | .record value => links value
  | .union branches => linksOfList branches
  | .lazy _ child => links child
  | .reference target owner registry => [⟨target, owner, registry⟩]
  | .optional inner => links inner
/-- The links of a list of validators. -/
def linksOfList : List Validator → List Link
  | [] => []
  | v :: rest => links v ++ linksOfList rest
/-- The links of a list of fields. -/
def linksOfFields : List (String × Validator) → List Link
  | [] => []
  | (_, v) :: rest => links v ++ linksOfFields rest
end

/-- The links of a union are those of its branches. -/
@[simp] theorem mem_linksOfList {link : Link} {vs : List Validator} :
    link ∈ linksOfList vs ↔ ∃ v ∈ vs, link ∈ v.links := by
  induction vs with
  | nil => simp [linksOfList]
  | cons v vs ih => simp [linksOfList, ih]

/-- The links of an object are those of its fields. -/
@[simp] theorem mem_linksOfFields {link : Link} {fields : List (String × Validator)} :
    link ∈ linksOfFields fields ↔ ∃ field ∈ fields, link ∈ field.2.links := by
  induction fields with
  | nil => simp [linksOfFields]
  | cons field fields ih =>
      obtain ⟨name, v⟩ := field
      simp [linksOfFields, ih]

/-- All links of a validator go through one handle, and to some names only. -/
def LinksWithin (registry : Handle) (Within : String → Prop) (v : Validator) : Prop :=
  ∀ link ∈ v.links, link.registry = registry ∧ Within link.target

namespace LinksWithin

variable {registry : Handle} {Within : String → Prop} {v : Validator}

theorem inward (h : v.LinksWithin registry Within) : ∀ link ∈ v.links, link.registry = registry :=
  fun link hlink => (h link hlink).1

theorem of_field {fields : List (String × Validator)} {closed : Bool}
    (h : (Validator.object fields closed).LinksWithin registry Within)
    {field : String × Validator} (hfield : field ∈ fields) :
    field.2.LinksWithin registry Within :=
  fun link hlink => h link (mem_linksOfFields.2 ⟨field, hfield, hlink⟩)

theorem of_branch {branches : List Validator}
    (h : (Validator.union branches).LinksWithin registry Within) {branch : Validator}
    (hbranch : branch ∈ branches) : branch.LinksWithin registry Within :=
  fun link hlink => h link (mem_linksOfList.2 ⟨branch, hbranch, hlink⟩)

theorem target_of_reference {target owner : String} {through : Handle}
    (h : (Validator.reference target owner through).LinksWithin registry Within) :
    Within target :=
  (h ⟨target, owner, through⟩ (List.mem_singleton_self _)).2

end LinksWithin

/-- A mark adds no links. -/
@[simp] theorem links_wrap (isOptional : Bool) (v : Validator) :
    (Element.wrap isOptional v).links = v.links := by
  cases isOptional <;> simp [Element.wrap, links]

end Validator

namespace Element

open Validator

variable (policy : UnknownAttributes) (owner : String) (registry : Handle)

@[simp] private theorem links_compileSimple (kind : SimpleKind) :
    (compileSimple kind).links = [] := by
  cases kind <;> rfl

mutual
/-- The links of a compiled element are the targets of the element. -/
theorem links_compile (e : Element) :
    (e.compile policy owner registry).links =
      e.targets.map fun target => ⟨target, owner, registry⟩ := by
  cases e with
  | enumeration values o =>
      rw [compile, links_wrap]
      split <;> simp [links, targets]
  | function args returns o => cases returns <;> simp [compile, links, targets]
  | object attributes o => simp [compile, links, targets, linksOfFields_compile attributes]
  | union branches o => simp [compile, links, targets, linksOfList_compile branches]
  | array item o => simp [compile, links, targets, links_compile item]
  | record value o => simp [compile, links, targets, links_compile value]
  | lazy child o => simp [compile, links, targets, links_compile child]
  | _ => simp [compile, links, targets]
/-- The links of a compiled list of elements. -/
theorem linksOfList_compile (es : List Element) :
    linksOfList (compileList policy owner registry es) =
      (targetsOfList es).map fun target => ⟨target, owner, registry⟩ := by
  cases es with
  | nil => rfl
  | cons e es =>
      simp [compileList, linksOfList, targetsOfList, links_compile e, linksOfList_compile es]
/-- The links of compiled attributes. -/
theorem linksOfFields_compile (attributes : List (String × Element)) :
    linksOfFields (compileAttributes policy owner registry attributes) =
      (targetsOfAttributes attributes).map fun target => ⟨target, owner, registry⟩ := by
  cases attributes with
  | nil => rfl
  | cons first rest =>
      obtain ⟨name, e⟩ := first
      simp [compileAttributes, linksOfFields, targetsOfAttributes, links_compile e,
        linksOfFields_compile rest]
end

/-- A link of a compiled element names a target and stands where the element
stands. -/
theorem mem_links_compile {policy : UnknownAttributes} {owner : String} {registry : Handle}
    {e : Element} {link : Link} :
    link ∈ (e.compile policy owner registry).links ↔
      link.target ∈ e.targets ∧ link.owner = owner ∧ link.registry = registry := by
  rw [links_compile, List.mem_map]
  constructor
  · rintro ⟨target, hmem, rfl⟩
    exact ⟨hmem, rfl, rfl⟩
  · rintro ⟨hmem, rfl, rfl⟩
    exact ⟨link.target, hmem, rfl⟩

end Element

/-- Among the links that are met, following one finds the entry of its name in one and
the same set, or nothing if the set has none. -/
structure Resolves (shelf : Shelf) (set : CompiledSet) (Met : Link → Prop) : Prop where
  found : ∀ {link entry}, Met link →
    (shelf.follow link = .ok entry ↔ set.get? link.target = some entry)
  onward : ∀ {link entry}, Met link → shelf.follow link = .ok entry →
    ∀ next ∈ entry.validator.links, Met next

/-- A link that cannot be followed names nothing. -/
theorem Resolves.get?_eq_none {shelf : Shelf} {set : CompiledSet} {Met : Link → Prop}
    (h : Resolves shelf set Met) {link : Link} (hmet : Met link) {cause : ReferenceError}
    (hbroken : shelf.follow link = .error cause) : set.get? link.target = none := by
  cases hget : set.get? link.target with
  | none => rfl
  | some entry =>
      rw [(h.found hmet).2 hget] at hbroken
      cases hbroken

/-- Behind a handle stands a set whose links all go through that handle. -/
structure Stands (shelf : Shelf) (registry : Handle) (set : CompiledSet) : Prop where
  onShelf : shelf.set? registry = some set
  inward : ∀ {name entry}, set.get? name = some entry →
    ∀ link ∈ entry.validator.links, link.registry = registry

namespace Stands

variable {shelf : Shelf} {registry : Handle}

/-- A compiled set on the shelf stands behind the handle it was compiled for. -/
theorem of_compile {settings : CompilerSettings} {set : SchemaSet}
    (h : shelf.set? registry = some (set.compile settings registry)) :
    Stands shelf registry (set.compile settings registry) where
  onShelf := h
  inward := by
    intro name entry hentry link hlink
    obtain ⟨e, -, rfl⟩ := SchemaSet.exists_of_get?_compile hentry
    exact (Element.mem_links_compile.1 hlink).2.2

variable {set : CompiledSet}

/-- An entry whose links lead to some names has them within those names. -/
theorem linksWithin (h : Stands shelf registry set) {name : String} {entry : Entry}
    (hentry : set.get? name = some entry) {Within : String → Prop}
    (hnames : ∀ link ∈ entry.validator.links, Within link.target) :
    entry.validator.LinksWithin registry Within :=
  fun link hlink => ⟨h.inward hentry link hlink, hnames link hlink⟩

/-- A name resolves to its entry in the set. -/
theorem resolve_eq_ok_iff (h : Stands shelf registry set) {target owner : String}
    {entry : Entry} :
    shelf.resolve registry target owner = .ok entry ↔ set.get? target = some entry := by
  simp only [Shelf.resolve, h.onShelf]
  cases set.get? target <;> simp

/-- A name fails to resolve only by not being in the set. -/
theorem resolve_eq_error_iff (h : Stands shelf registry set) {target owner : String}
    {cause : ReferenceError} :
    shelf.resolve registry target owner = .error cause ↔
      set.get? target = none ∧ cause = .unresolved target owner set.names := by
  simp only [Shelf.resolve, h.onShelf]
  cases set.get? target <;> simp [eq_comm]

/-- The links of a set that stands behind a handle are found in that set. -/
theorem resolves (h : Stands shelf registry set) :
    Resolves shelf set fun link => link.registry = registry where
  found := by
    rintro ⟨target, owner, through⟩ entry rfl
    exact h.resolve_eq_ok_iff
  onward := by
    rintro ⟨target, owner, through⟩ entry rfl hfollow
    exact h.inward (h.resolve_eq_ok_iff.1 hfollow)

end Stands
end SchemaSets
