import SchemaSets.Proofs.Checked
import SchemaSets.Proofs.Written

/-!
# Written elements are checked exactly

Not every document of an element passes the grammar.  The reader lets a lazy
element put off anything, and the grammar asks for a function there.  This is the
only difference on documents that elements are written as: such a document is
valid exactly if every lazy element in it, at any depth and also in the signature
of a function, puts off a function (`describes_toJson_iff`).

The tag of a document decides which of the ten forms it can be described by, so
the union of the grammar leaves one branch, and that branch asks the same of the
document as the element is made of.  The proof follows the element.

## Main results

* `describes_toJson_iff` — what the grammar says of the document of an element.
* `written_iff_wellDeferred` — the reports on documents of elements and of sets,
  and on the document of the grammar itself.
-/

namespace SchemaSets

namespace Element

/-- A lazy element puts off a function. -/
def DefersFunction : Element → Prop
  | .lazy child _ => child.form = .function
  | _ => True

instance : DecidablePred DefersFunction
  | .lazy child _ => inferInstanceAs (Decidable (child.form = .function))
  | .literal .. | .simple .. | .enumeration .. | .object .. | .array .. | .record .. | .union ..
  | .function .. | .reference .. => isTrue trivial

/-- Every lazy element that occurs in an element puts off a function. -/
def WellDeferred (e : Element) : Prop := e.Everywhere DefersFunction

instance : DecidablePred WellDeferred := fun e =>
  inferInstanceAs (Decidable (e.Everywhere DefersFunction))

end Element

/-- A tag belongs to one form. -/
theorem Form.tag_injective : Function.Injective Form.tag := by
  intro form other h
  have hform := Element.choose_tag form
  rw [h, Element.choose_tag, Except.ok.injEq] at hform
  exact hform.symm

namespace Grammar

open SchemaSet.Describes

variable {form : Form} {e child : Element} {x : Element} {o : Bool}

/-! ## One form for a document -/

/-- An object is described by a form if its members are by the attributes of the
form. -/
theorem describes_object_iff {d : Json} (hobject : ∃ members, d = .object members) :
    elements.Describes .ignore (ofForm form) (some (.ofJson d)) ↔
      ∀ a ∈ attributes form, elements.Describes .ignore a.2 ((d.get? a.1).map .ofJson) := by
  obtain ⟨members, rfl⟩ := hobject
  rw [describes_ofForm_iff]
  simp only [Value.ofJson, Option.some.injEq, Value.object.injEq, exists_eq_left',
    Value.find?_ofMembers, Json.get?]

/-- A mark is described wherever it may stand. -/
theorem describes_mark (o : Bool) : elements.Describes .ignore (.simple .boolean true)
    ((if o then some (Json.bool true) else none).map .ofJson) := by
  cases o with
  | false => exact .absent rfl
  | true => exact .boolean

/-- The document of an element is described by its own form only. -/
theorem form_eq_of_describes
    (h : elements.Describes .ignore (ofForm form) (some (.ofJson e.toJson))) :
    form = e.form := by
  have htype := of_literal ((describes_object_iff e.exists_members_toJson).1 h
    ("type", .literal form.tag false) (by simp [attributes]))
  rw [e.get?_type_toJson] at htype
  simp only [Option.map_some, Value.ofJson, Option.some.injEq, Value.string.injEq] at htype
  exact Form.tag_injective htype.symm

/-- Of the union of all forms one branch is left for the document of an element. -/
theorem describes_anyElement_toJson_iff :
    elements.Describes .ignore anyElement (some (.ofJson e.toJson)) ↔
      elements.Describes .ignore (ofForm e.form) (some (.ofJson e.toJson)) := by
  rw [describes_anyElement_iff]
  constructor
  · rintro ⟨form, h⟩
    exact form_eq_of_describes h ▸ h
  · exact fun h => ⟨_, h⟩

/-! ## Documents by their parts -/

/-- A document with a definition is described by its form if the definition is. -/
theorem describes_tagged_iff (form : Form) {definition : Json}
    (hparts : parts form = [("definition", x)]) :
    elements.Describes .ignore (ofForm form)
        (some (.ofJson (Element.tagged form definition o))) ↔
      elements.Describes .ignore x (some (.ofJson definition)) := by
  obtain ⟨hdefinition, hoptional, htype⟩ := Element.get?_tagged form definition o
  rw [describes_object_iff (d := Element.tagged form definition o) ⟨_, rfl⟩, attributes, hparts]
  simp only [List.cons_append, List.nil_append, List.forall_mem_cons, List.not_mem_nil,
    false_implies, implies_true, and_true, htype, hoptional, hdefinition]
  exact ⟨fun h => h.2.2, fun h => ⟨.literal, describes_mark o, h⟩⟩

/-- A sequence of documents is described if each of them is. -/
theorem describes_array_iff {items : List Json} :
    elements.Describes .ignore (.array x o) (some (.ofJson (.array items))) ↔
      ∀ d ∈ items, elements.Describes .ignore x (some (.ofJson d)) := by
  constructor
  · intro h d hd
    obtain ⟨values, hvalues, heach⟩ := of_array h
    cases hvalues
    exact heach _ (Value.mem_ofItems.2 ⟨d, hd, rfl⟩)
  · intro h
    refine .array fun value hvalue => ?_
    obtain ⟨d, hd, rfl⟩ := Value.mem_ofItems.1 hvalue
    exact h d hd

/-- Documents by name are described if each of them is. -/
theorem describes_record_iff {members : List (String × Json)} :
    elements.Describes .ignore (.record x o) (some (.ofJson (.object members))) ↔
      ∀ m ∈ members, elements.Describes .ignore x (some (.ofJson m.2)) := by
  constructor
  · intro h m hm
    obtain ⟨values, hvalues, heach⟩ := of_record h
    cases hvalues
    exact heach _ (Value.mem_ofMembers.2 ⟨m, hm, rfl⟩)
  · intro h
    refine .record fun member hmember => ?_
    obtain ⟨m, hm, rfl⟩ := Value.mem_ofMembers.1 hmember
    exact h m hm

/-- The documents of a list of elements. -/
theorem forall_describes_listToJson_iff {es : List Element} :
    (∀ d ∈ Element.listToJson es, elements.Describes .ignore anyElement (some (.ofJson d))) ↔
      ∀ e ∈ es, elements.Describes .ignore anyElement (some (.ofJson e.toJson)) := by
  induction es with
  | nil => simp [Element.listToJson]
  | cons e es ih => rw [Element.listToJson, List.forall_mem_cons, ih, List.forall_mem_cons]

/-- The documents of attributes. -/
theorem forall_describes_attributesToJson_iff {named : List (String × Element)} :
    (∀ m ∈ Element.attributesToJson named,
        elements.Describes .ignore anyElement (some (.ofJson m.2))) ↔
      ∀ a ∈ named, elements.Describes .ignore anyElement (some (.ofJson a.2.toJson)) := by
  induction named with
  | nil => simp [Element.attributesToJson]
  | cons a rest ih => rw [Element.attributesToJson, List.forall_mem_cons, ih, List.forall_mem_cons]

/-- A document that may be missing is described if it is missing or described. -/
theorem describes_optional_iff {document : Option Json} :
    elements.Describes .ignore anyElement.optional (document.map Value.ofJson) ↔
      ∀ d, document = some d → elements.Describes .ignore anyElement (some (.ofJson d)) := by
  constructor
  · rintro h d rfl
    exact unmark_reference h
  · intro h
    cases document with
    | none => exact .absent rfl
    | some d => exact .reference get?_elementName (of_reference get?_elementName (h d rfl))

/-- The document of a function is described if its arguments are, and what it
returns. -/
theorem describes_taggedFunction_iff {args : List Json} {returns : Option Json} :
    elements.Describes .ignore (ofForm .function)
        (some (.ofJson (Element.taggedFunction args returns o))) ↔
      (∀ d ∈ args, elements.Describes .ignore anyElement (some (.ofJson d))) ∧
        ∀ d, returns = some d → elements.Describes .ignore anyElement (some (.ofJson d)) := by
  obtain ⟨hargs, hreturns, hoptional, htype⟩ := Element.get?_taggedFunction args returns o
  rw [← describes_optional_iff, ← describes_array_iff (o := true)]
  rw [describes_object_iff (d := Element.taggedFunction args returns o) ⟨_, rfl⟩]
  simp only [attributes, parts, List.cons_append, List.nil_append, List.forall_mem_cons,
    List.not_mem_nil, false_implies, implies_true, and_true, htype, hoptional, hargs, hreturns]
  exact ⟨fun h => h.2.2, fun h => ⟨.literal, describes_mark o, h⟩⟩

/-! ## Elements -/

/-- What is put off passes the grammar if it passes as an element and is a
function. -/
theorem describes_deferred_iff :
    elements.Describes .ignore (.reference (formName .function) false)
        (some (.ofJson child.toJson)) ↔
      child.form = .function ∧
        elements.Describes .ignore anyElement (some (.ofJson child.toJson)) := by
  constructor
  · intro h
    have hfunction := of_reference (get?_formName .function) h
    have hform := form_eq_of_describes hfunction
    exact ⟨hform.symm, describes_anyElement_toJson_iff.2 (hform ▸ hfunction)⟩
  · rintro ⟨hform, h⟩
    exact .reference (get?_formName .function) (hform ▸ describes_anyElement_toJson_iff.1 h)

/-- The grammar describes the document of an element exactly if every lazy element
in it puts off a function. -/
theorem describes_toJson_iff (e : Element) :
    elements.Describes .ignore anyElement (some (.ofJson e.toJson)) ↔ e.WellDeferred := by
  induction e using Element.induction with
  | literal text o =>
      rw [describes_anyElement_toJson_iff, Element.WellDeferred, Element.everywhere_literal_iff]
      exact iff_of_true ((describes_tagged_iff .literal rfl).2 .string) trivial
  | simple kind o =>
      rw [describes_anyElement_toJson_iff, Element.WellDeferred, Element.everywhere_simple_iff]
      refine iff_of_true ((describes_tagged_iff .simple rfl).2 (.choice ?_)) trivial
      cases kind <;> decide
  | enumeration values o =>
      rw [describes_anyElement_toJson_iff, Element.WellDeferred,
        Element.everywhere_enumeration_iff]
      refine iff_of_true ((describes_tagged_iff .enumeration rfl).2
        (describes_array_iff.2 fun d hd => ?_)) trivial
      obtain ⟨text, -, rfl⟩ := List.mem_map.1 hd
      exact .string
  | object attributes o ih =>
      have hself : (Element.object attributes o).DefersFunction := trivial
      rw [describes_anyElement_toJson_iff, Element.WellDeferred, Element.everywhere_object_iff,
        and_iff_right hself, Element.toJson]
      refine (describes_tagged_iff .object rfl).trans (describes_record_iff.trans ?_)
      exact forall_describes_attributesToJson_iff.trans (forall₂_congr ih)
  | array item o ih =>
      have hself : (Element.array item o).DefersFunction := trivial
      rw [describes_anyElement_toJson_iff, Element.WellDeferred, Element.everywhere_array_iff,
        and_iff_right hself, ← Element.WellDeferred, ← ih]
      exact describes_tagged_iff .array rfl
  | record value o ih =>
      have hself : (Element.record value o).DefersFunction := trivial
      rw [describes_anyElement_toJson_iff, Element.WellDeferred, Element.everywhere_record_iff,
        and_iff_right hself, ← Element.WellDeferred, ← ih]
      exact describes_tagged_iff .record rfl
  | union branches o ih =>
      have hself : (Element.union branches o).DefersFunction := trivial
      rw [describes_anyElement_toJson_iff, Element.WellDeferred, Element.everywhere_union_iff,
        and_iff_right hself, Element.toJson]
      refine (describes_tagged_iff .union rfl).trans (describes_array_iff.trans ?_)
      exact forall_describes_listToJson_iff.trans (forall₂_congr ih)
  | function args returns o hargs hreturns =>
      have hself : (Element.function args returns o).DefersFunction := trivial
      have heach := forall_describes_listToJson_iff.trans (forall₂_congr hargs)
      rw [describes_anyElement_toJson_iff, Element.WellDeferred, Element.everywhere_function_iff,
        and_iff_right hself]
      cases returns with
      | none => exact describes_taggedFunction_iff.trans (and_congr heach (by simp))
      | some r =>
          have hresult := hreturns r rfl
          rw [Element.WellDeferred] at hresult
          refine describes_taggedFunction_iff.trans (and_congr heach ?_)
          simpa using hresult
  | lazy child o ih =>
      rw [describes_anyElement_toJson_iff, Element.WellDeferred, Element.everywhere_lazy_iff,
        ← Element.WellDeferred, ← ih]
      exact (describes_tagged_iff .lazy rfl).trans describes_deferred_iff
  | reference target o =>
      rw [describes_anyElement_toJson_iff, Element.WellDeferred, Element.everywhere_reference_iff]
      exact iff_of_true ((describes_tagged_iff .reference rfl).2 .string) trivial

/-! ## Reports -/

/-- The report on the document of an element. -/
theorem exists_validateElement_toJson (e : Element) :
    ∃ report, validateElement e.toJson = .ok report ∧
      (report.isValid = true ↔ e.WellDeferred) := by
  obtain ⟨report, hreport, hvalid⟩ := exists_validate get?_elementName (.ofJson e.toJson)
  refine ⟨report, hreport, ?_⟩
  rw [hvalid, ← describes_toJson_iff]
  exact ⟨fun h => .reference get?_elementName h, of_reference get?_elementName⟩

/-- The report on the document of a set. -/
theorem exists_validateSet_toJson (set : SchemaSet) :
    ∃ report, validateSet set.toJson = .ok report ∧
      (report.isValid = true ↔ ∀ entry ∈ set.elements, entry.2.WellDeferred) := by
  obtain ⟨report, hreport, hvalid⟩ := exists_validate get?_setName (.ofJson set.toJson)
  refine ⟨report, hreport, ?_⟩
  rw [hvalid, SchemaSet.toJson, describes_record_iff, forall_describes_attributesToJson_iff]
  exact forall₂_congr fun entry _ => describes_toJson_iff entry.2

/-- The grammar puts nothing off. -/
theorem wellDeferred_elements : ∀ entry ∈ elements.elements, entry.2.WellDeferred := by decide

end Grammar

/-- On documents of elements and sets the grammar is exact: there is a report, and
it is valid exactly if every lazy element at any depth puts off a function.  The
document of the grammar itself is valid. -/
theorem written_iff_wellDeferred :
    (∀ e : Element, ∃ report, Grammar.validateElement e.toJson = .ok report ∧
      (report.isValid = true ↔ e.WellDeferred)) ∧
    (∀ set : SchemaSet, ∃ report, Grammar.validateSet set.toJson = .ok report ∧
      (report.isValid = true ↔ ∀ entry ∈ set.elements, entry.2.WellDeferred)) ∧
    ∃ report, Grammar.validateSet Grammar.elements.toJson = .ok report ∧
      report.isValid = true := by
  refine ⟨Grammar.exists_validateElement_toJson, Grammar.exists_validateSet_toJson, ?_⟩
  obtain ⟨report, hreport, hvalid⟩ := Grammar.exists_validateSet_toJson Grammar.elements
  exact ⟨report, hreport, hvalid.2 Grammar.wellDeferred_elements⟩

end SchemaSets
