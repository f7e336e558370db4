import SchemaSets.Draft07.Rendering
import SchemaSets.Proofs.Absence
import SchemaSets.Proofs.Describes
import SchemaSets.Proofs.Reach

/-!
# Absent values and required attributes

Whether a slot may be empty is asked in two ways.  The walk checks the empty slot
like any other, with a chain that is given up when a branch is done; the search
of `Validator.Absence` never forgets a name, and looks at no value.  Both find
out whether an empty slot fits, so where the walk comes to an end they agree
(`mayBeAbsent_eq_of_acceptsSlot`), whatever the references of the set are.

The attributes that a schema requires are told by the search.  Where every
reference that an object leads to is defined the walk does come to an end, and
what is required is what the walk rejects when it is missing
(`absence_agrees`).
-/

namespace SchemaSets

open Relation

/-! ## The two questions -/

section Standing

variable {shelf : Shelf} {registry : Handle} {set : CompiledSet} {v : Validator}

/-- If the walk of an empty slot comes to an end, the search says the same. -/
theorem Resolves.mayBeAbsent_eq_of_acceptsSlot {Met : Link → Prop}
    (hset : Resolves shelf set Met) (hlinks : ∀ link ∈ v.links, Met link) {b : Bool}
    (h : v.acceptsSlot shelf none = .ok b) : v.mayBeAbsent shelf = b := by
  obtain ⟨report, hreport, rfl⟩ := acceptsSlot_eq_ok_iff.1 h
  have hsearch := hset.mayBeAbsent_iff hlinks
  have hwalk := hset.isValid_iff_fits hlinks hreport
  exact Bool.eq_iff_iff.2 (hsearch.trans hwalk.symm)

/-- Inside one set, if the walk of an empty slot comes to an end, the search says the
same. -/
theorem mayBeAbsent_eq_of_acceptsSlot (hset : Stands shelf registry set)
    (hinward : ∀ link ∈ v.links, link.registry = registry) {b : Bool}
    (h : v.acceptsSlot shelf none = .ok b) : v.mayBeAbsent shelf = b :=
  hset.resolves.mayBeAbsent_eq_of_acceptsSlot hinward h

/-- Where all names that a validator leads to are defined, it rejects an empty slot
exactly if it may not be absent. -/
theorem acceptsSlot_eq_false_iff (hset : Stands shelf registry set) {Met : String → Prop}
    (hmet : ∀ name, Met name → ∃ entry, set.get? name = some entry ∧
      ∀ link ∈ entry.validator.links, Met link.target)
    (hlinks : v.LinksWithin registry Met) :
    v.acceptsSlot shelf none = .ok false ↔ v.mayBeAbsent shelf = false := by
  obtain ⟨report, hreport⟩ := exists_report hset hmet hlinks none
  have haccepts : v.acceptsSlot shelf none = .ok report.isValid :=
    acceptsSlot_eq_ok_iff.2 ⟨report, hreport, rfl⟩
  rw [haccepts, mayBeAbsent_eq_of_acceptsSlot hset hlinks.inward haccepts, Except.ok.injEq]

end Standing

/-! ## What is required -/

/-- The list of required attributes is written if there are any. -/
theorem get?_required_schema (shelf : Shelf) (exporter : ExportSettings)
    (fields : List (String × Validator)) (closed : Bool) :
    ((Validator.object fields closed).schema shelf exporter).get? "required" =
      if requiredFields shelf fields = [] then none
      else some (Json.strings (requiredFields shelf fields)) := by
  rw [Validator.schema, Validator.schemaMembers, Json.get?]
  cases closed <;> cases requiredFields shelf fields <;> simp [Keyed.find?]

/-- Required attributes stand in the order of the fields. -/
theorem pairwise_requiredFields {shelf : Shelf} {fields : List (String × Validator)}
    (h : Keyed.Sorted fields) : (requiredFields shelf fields).Pairwise (· < ·) :=
  List.pairwise_map.2 (h.filter _)

namespace SchemaSet

variable {set : SchemaSet}

/-- Everything that a name leads to has an entry. -/
def Defined (set : SchemaSet) (name : String) : Prop :=
  ∀ other, ReflTransGen set.Refers name other → set.contains other = true

/-- Where no reference dangles, an entry leads to entries only. -/
theorem DanglingFree.defined (h : set.DanglingFree) {name : String}
    (hname : set.contains name = true) : set.Defined name := by
  intro other hpath
  cases hpath with
  | refl => exact hname
  | tail _ hrefers =>
      obtain ⟨e, he, htarget⟩ := hrefers
      exact h _ (Keyed.mem_of_find? he) other htarget

variable {settings : CompilerSettings} {registry : Handle}

/-- The links of a defined name lead to defined names. -/
theorem exists_entry_of_defined {name : String} (h : set.Defined name) :
    ∃ entry, (set.compile settings registry).get? name = some entry ∧
      ∀ link ∈ entry.validator.links, set.Defined link.target := by
  obtain ⟨e, he⟩ := Option.isSome_iff_exists.1 (h name .refl)
  refine ⟨_, get?_compile_of_eq he, fun link hlink other hpath => h other ?_⟩
  exact .head ⟨e, he, (Element.mem_links_compile.1 hlink).1⟩ hpath

/-- The fields of an object node are the compiled attributes of an object inside the set, and what
all elements inside the set have, however they are marked, that object has. -/
theorem exists_attributes_of_hasNode {P : Element → Prop}
    (hmarks : ∀ e o, P e → P (e.withOptional o))
    (h : ∀ entry ∈ set.elements, entry.2.Everywhere P) {fields : List (String × Validator)}
    {closed : Bool} (hnode : (set.compile settings registry).HasNode (.object fields closed)) :
    ∃ owner attributes, P (.object attributes false) ∧
      fields = Element.compileAttributes settings.unknownAttributes owner registry attributes := by
  obtain ⟨owner, e, heverywhere, hcompile⟩ := exists_handed_of_hasNode h
    (fun e he child hchild => he.of_mem_beneath hmarks hchild) hnode
  obtain ⟨attributes, rfl, hfields, -⟩ := Element.origin_of_compile_eq hcompile.symm
  exact ⟨owner, attributes, (Element.everywhere_object_iff.1 heverywhere).1, hfields⟩

/-- The fields of an object of an ordered set stand in name order. -/
theorem Ordered.sorted_of_hasNode (h : set.Ordered) {fields : List (String × Validator)}
    {closed : Bool} (hnode : (set.compile settings registry).HasNode (.object fields closed)) :
    Keyed.Sorted fields := by
  have hmarks : ∀ (e : Element) (o : Bool), e.ListsInOrder → (e.withOptional o).ListsInOrder := by
    intro e o he
    cases e <;> exact he
  obtain ⟨owner, attributes, horder, rfl⟩ := exists_attributes_of_hasNode hmarks h.attributes hnode
  have hsorted : Keyed.Sorted attributes := horder
  rw [Element.compileAttributes_eq_map]
  exact Keyed.sorted_mapValues hsorted fun _ => Element.compile _ owner registry

end SchemaSet

/-- In a compiled set, wherever the walk of an empty slot comes to an end the search
for absence has the same answer.  And where every reference that an object leads
to is defined, the attributes that its schema requires are those whose validators
reject an empty slot, in name order and each once. -/
theorem absence_agrees {set : SchemaSet} {settings : CompilerSettings} {shelf : Shelf}
    {registry : Handle} (hshelf : shelf.set? registry = some (set.compile settings registry)) :
    (∀ v b, (set.compile settings registry).HasNode v → v.acceptsSlot shelf none = .ok b →
      v.mayBeAbsent shelf = b) ∧
    ∀ fields closed, (set.compile settings registry).HasNode (.object fields closed) →
      (∀ link ∈ (Validator.object fields closed).links, set.Defined link.target) →
        ∀ exporter, ∃ names : List String,
          ((Validator.object fields closed).schema shelf exporter).get? "required" =
            (if names = [] then none else some (Json.strings names)) ∧
          (set.Ordered → names.Pairwise (· < ·)) ∧
          ∀ name, name ∈ names ↔
            ∃ field ∈ fields, field.1 = name ∧ field.2.acceptsSlot shelf none = .ok false := by
  have hset := Stands.of_compile hshelf
  have hinward : ∀ v, (set.compile settings registry).HasNode v →
      ∀ link ∈ v.links, link.registry = registry := by
    intro v hnode link hlink
    obtain ⟨owner, e, rfl⟩ := SchemaSet.exists_of_hasNode hnode
    exact (Element.mem_links_compile.1 hlink).2.2
  constructor
  · intro v b hnode h
    exact mayBeAbsent_eq_of_acceptsSlot hset (hinward v hnode) h
  · intro fields closed hnode hdefined exporter
    have hlinks : (Validator.object fields closed).LinksWithin registry set.Defined :=
      fun link hlink => ⟨hinward _ hnode link hlink, hdefined link hlink⟩
    refine ⟨requiredFields shelf fields, get?_required_schema shelf exporter fields closed,
      fun hordered => pairwise_requiredFields (hordered.sorted_of_hasNode hnode), fun name => ?_⟩
    rw [mem_requiredFields]
    refine exists_congr fun field => and_congr_right fun hfield => and_congr_right fun _ => ?_
    exact (acceptsSlot_eq_false_iff hset (fun _ => SchemaSet.exists_entry_of_defined)
      (hlinks.of_field hfield)).symm

/-- An object whose attributes lead into rings of references: nothing ever comes
out of one ring, and a lazy branch that may be absent out of the other. -/
def rings : SchemaSet :=
  .ofList [("holder", .object [("back", .reference "ring" false),
      ("label", .simple .string false), ("note", .reference "outlet" false)] false),
    ("ring", .union [.reference "ring" false, .reference "holder" false] false),
    ("outlet", .union [.reference "ring" false, .reference "outlet" false,
      .lazy (.simple .string true) false] false)]

/-- In the compiled rings the two questions have one answer for the attribute that
leads to the outlet, and the holder requires the attributes that reject an empty
slot. -/
theorem absence_agrees_rings :
    let compiled := rings.compile {} (.ofSet 0)
    let shelf := ({} : Shelf).put 0 compiled
    let outlet := Validator.reference "outlet" "holder" (.ofSet 0)
    let fields := [("back", Validator.reference "ring" "holder" (.ofSet 0)),
      ("label", .string), ("note", outlet)]
    (∃ b, outlet.acceptsSlot shelf none = .ok b ∧ outlet.mayBeAbsent shelf = b) ∧
      ∃ names : List String,
        ((Validator.object fields false).schema shelf {}).get? "required" =
          (if names = [] then none else some (Json.strings names)) ∧
        names.Pairwise (· < ·) ∧
        ∀ name, name ∈ names ↔
          ∃ field ∈ fields, field.1 = name ∧ field.2.acceptsSlot shelf none = .ok false := by
  intro compiled shelf outlet fields
  have hshelf : shelf.set? (.ofSet 0) = some compiled := rfl
  have hfree : rings.DanglingFree := by decide
  have hdefined : ∀ name, rings.contains name = true → rings.Defined name :=
    fun name => hfree.defined
  have hholder : compiled.HasNode (.object fields false) :=
    ⟨"holder", _, SchemaSet.get?_compile_of_eq (e := .object [("back", .reference "ring" false),
      ("label", .simple .string false), ("note", .reference "outlet" false)] false) (by decide),
      .refl⟩
  have houtlet : compiled.HasNode outlet := by
    obtain ⟨name, entry, hentry, hpath⟩ := hholder
    exact ⟨name, entry, hentry, hpath.tail (by simp [Validator.children, fields, outlet])⟩
  obtain ⟨hquestions, hrequired⟩ := absence_agrees hshelf
  constructor
  · have hlinks : outlet.LinksWithin (.ofSet 0) rings.Defined := by
      intro link hlink
      cases List.mem_singleton.1 hlink
      exact ⟨rfl, hdefined _ (by decide)⟩
    obtain ⟨report, hreport⟩ := exists_report (Stands.of_compile hshelf)
      (fun _ => SchemaSet.exists_entry_of_defined) hlinks none
    have haccepts := acceptsSlot_eq_ok_iff.2 ⟨report, hreport, rfl⟩
    exact ⟨_, haccepts, hquestions outlet _ houtlet haccepts⟩
  · have hlinks : ∀ link ∈ (Validator.object fields false).links, rings.Defined link.target := by
      simp only [Validator.links, Validator.linksOfFields, fields, outlet, List.cons_append,
        List.nil_append, List.append_nil, List.forall_mem_cons]
      exact ⟨hdefined _ (by decide), hdefined _ (by decide), List.forall_mem_nil _⟩
    obtain ⟨names, hschema, horder, hmem⟩ := hrequired fields false hholder hlinks {}
    exact ⟨names, hschema, horder (by decide), hmem⟩

end SchemaSets
