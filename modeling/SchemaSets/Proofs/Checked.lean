import SchemaSets.Grammar
import SchemaSets.Proofs.Describes
import SchemaSets.Proofs.JsonValues
import SchemaSets.Proofs.Ordered
import SchemaSets.Proofs.Reading

/-!
# Checked documents are read

The grammar and the reader say twice what a document must look like to be an
element: the grammar as a set of elements that refer to each other, which is
compiled and walked, and the reader as a recursion over the document.  What the
grammar takes, the reader reads.

The grammar has no dangling reference, so there is a report on every document
and it is valid exactly if the grammar describes the document (`exists_validate`).
A description of an element names a form and says of each part of that form what
is described there; the reader looks at the same parts.  The parts are smaller
than the document, and the induction is on its size: a chain of references in the
grammar passes from the union to one form and then down the document.

The document must list its members in key order, as documents do.  With a key
given twice the grammar would look at the first part of that name, and the
reader at both.

## Main results

* `exists_read_of_describes` — a document that the grammar describes is read, as
  an element of the form of its tag.
* `validation_sound` — there is a report on every document; a valid one promises
  that the document is read, and that a set then compiles.
-/

namespace SchemaSets

/-! ## Descriptions taken apart -/

namespace SchemaSet.Describes

variable {set : SchemaSet} {policy : UnknownAttributes} {slot : Slot} {x : Value} {o : Bool}

theorem of_literal {text : String} (h : set.Describes policy (.literal text false) slot) :
    slot = some (.string text) := by
  cases h with
  | absent marked => cases marked
  | literal => rfl

theorem of_boolean (h : set.Describes policy (.simple .boolean o) (some x)) :
    ∃ b, x = .bool b := by
  cases h with
  | boolean => exact ⟨_, rfl⟩

theorem of_string (h : set.Describes policy (.simple .string o) (some x)) :
    ∃ text, x = .string text := by
  cases h with
  | string => exact ⟨_, rfl⟩

theorem of_enumeration {values : List String} (hmany : 2 ≤ values.length)
    (h : set.Describes policy (.enumeration values o) (some x)) :
    ∃ text ∈ values, x = .string text := by
  cases h with
  | fewChoices few => exact absurd few (Nat.not_lt.2 hmany)
  | choice mem => exact ⟨_, mem, rfl⟩

theorem of_array {item : Element} (h : set.Describes policy (.array item o) (some x)) :
    ∃ items, x = .array items ∧ ∀ y ∈ items, set.Describes policy item (some y) := by
  cases h with
  | array each => exact ⟨_, rfl, each⟩

theorem of_record {value : Element} (h : set.Describes policy (.record value o) (some x)) :
    ∃ members, x = .object members ∧
      ∀ member ∈ members, set.Describes policy value (some member.2) := by
  cases h with
  | record each => exact ⟨_, rfl, each⟩

theorem of_object {attributes : List (String × Element)}
    (h : set.Describes policy (.object attributes false) slot) :
    ∃ members, slot = some (.object members) ∧
      ∀ a ∈ attributes, set.Describes policy a.2 (Keyed.find? a.1 members) := by
  cases h with
  | absent marked => cases marked
  | object each listed => exact ⟨_, rfl, each⟩

theorem of_union {branches : List Element}
    (h : set.Describes policy (.union branches false) slot) :
    ∃ branch ∈ branches, set.Describes policy branch slot := by
  cases h with
  | absent marked => cases marked
  | union mem describes => exact ⟨_, mem, describes⟩

theorem of_reference {target : String} {e : Element} (hfound : set.get? target = some e)
    (h : set.Describes policy (.reference target false) slot) : set.Describes policy e slot := by
  cases h with
  | absent marked => cases marked
  | reference found describes =>
      rw [hfound] at found
      cases found
      exact describes

/-- A mark does not matter for a value that is there. -/
theorem unmark_reference {target : String}
    (h : set.Describes policy (.reference target o) (some x)) :
    set.Describes policy (.reference target false) (some x) := by
  cases h with
  | reference found describes => exact .reference found describes

end SchemaSet.Describes

namespace Grammar

open SchemaSet.Describes

/-! ## The grammar as a set -/

/-- The grammar refers to its own entries only. -/
theorem danglingFree : elements.DanglingFree := by decide

/-- No two entries of the grammar have one name, so each of them is found. -/
private theorem get?_of_mem {name : String} {e : Element}
    (h : (name, e) ∈ forms.map (fun form => (formName form, ofForm form)) ++
      [(elementName, .union (forms.map fun form => .reference (formName form) false) false),
        (setName, .record anyElement false)]) :
    elements.get? name = some e := by
  have hnodup : (forms.map formName ++ [elementName, setName]).Nodup := by decide
  refine Keyed.find?_ofList_of_mem ?_ h
  rwa [Keyed.keys, List.map_append, List.map_map]

theorem mem_forms (form : Form) : form ∈ forms := by
  cases form <;> decide

theorem get?_formName (form : Form) : elements.get? (formName form) = some (ofForm form) :=
  get?_of_mem (List.mem_append_left _ (List.mem_map.2 ⟨form, mem_forms form, rfl⟩))

theorem get?_elementName : elements.get? elementName =
    some (.union (forms.map fun form => .reference (formName form) false) false) :=
  get?_of_mem (List.mem_append_right _ List.mem_cons_self)

theorem get?_setName : elements.get? setName = some (.record anyElement false) :=
  get?_of_mem (List.mem_append_right _ (List.mem_cons_of_mem _ List.mem_cons_self))

/-- What the documents of a form hold: a tag, a mark and the parts of the form. -/
def attributes (form : Form) : List (String × Element) :=
  [("type", .literal form.tag false), ("optional", .simple .boolean true)] ++ parts form

/-- No two attributes of a form have one name, so each of them is kept. -/
theorem mem_ofList_attributes (form : Form) (a : String × Element) :
    a ∈ Keyed.ofList (attributes form) ↔ a ∈ attributes form := by
  have hnodup : (Keyed.keys (attributes form)).Nodup := by
    cases form <;> decide
  exact ⟨(Keyed.sorted_ofList _).2 a,
    fun h => Keyed.mem_of_find? (Keyed.find?_ofList_of_mem hnodup h)⟩

/-- There is a report on every value under every entry of the grammar. -/
theorem exists_validate {name : String} {e : Element} (hname : elements.get? name = some e)
    (x : Value) :
    ∃ report, validate name x = .ok report ∧
      (report.isValid = true ↔ elements.Describes .ignore e (some x)) := by
  have hshelf : shelf.set? registry = some (elements.compile {} registry) := rfl
  have htargets := danglingFree _ (Keyed.mem_of_find? hname)
  obtain ⟨report, hreport, hvalid⟩ :=
    exists_report_describes danglingFree hshelf htargets name (some x)
  refine ⟨report, ?_, hvalid⟩
  rw [validate, compiled, SchemaSet.entry_compile_of_eq hname]
  show Except.mapError SchemaError.reference (Validator.validateSlot shelf _ (some x)) = _
  rw [Entry.of, hreport]
  rfl

/-- A report is valid exactly if the entry describes the value. -/
theorem isValid_iff_describes {name : String} {e : Element} {x : Value} {report : Report}
    (hname : elements.get? name = some e) (hreport : validate name x = .ok report) :
    report.isValid = true ↔ elements.Describes .ignore e (some x) := by
  obtain ⟨other, hother, hiff⟩ := exists_validate hname x
  rw [hreport] at hother
  cases hother
  exact hiff

/-! ## What the grammar says of documents -/

variable {form : Form} {d part : Json} {slot : Slot}

/-- A chain of references leads from any element to the documents of one form. -/
theorem describes_anyElement_iff :
    elements.Describes .ignore anyElement slot ↔
      ∃ form, elements.Describes .ignore (ofForm form) slot := by
  constructor
  · intro h
    have hunion := of_reference get?_elementName h
    obtain ⟨branch, hbranch, hdescribes⟩ := of_union hunion
    obtain ⟨form, -, rfl⟩ := List.mem_map.1 hbranch
    exact ⟨form, of_reference (get?_formName form) hdescribes⟩
  · rintro ⟨form, h⟩
    have hbranch : elements.Describes .ignore (.reference (formName form) false) slot :=
      .reference (get?_formName form) h
    exact .reference get?_elementName (.union (List.mem_map.2 ⟨form, mem_forms form, rfl⟩) hbranch)

/-- The documents of a form are the objects of which each attribute of the form
describes what is there under its name. -/
theorem describes_ofForm_iff :
    elements.Describes .ignore (ofForm form) slot ↔
      ∃ members, slot = some (.object members) ∧ ∀ a ∈ attributes form,
        elements.Describes .ignore a.2 (Keyed.find? a.1 members) := by
  constructor
  · intro h
    obtain ⟨members, hmembers, heach⟩ := of_object h
    exact ⟨members, hmembers, fun a ha => heach a ((mem_ofList_attributes form a).2 ha)⟩
  · rintro ⟨members, rfl, heach⟩
    exact .object (fun a ha => heach a ((mem_ofList_attributes form a).1 ha)) nofun

/-- No element describes what is not there. -/
theorem not_describes_anyElement_none : ¬ elements.Describes .ignore anyElement none := by
  intro h
  obtain ⟨form, hform⟩ := describes_anyElement_iff.1 h
  obtain ⟨members, hmembers, -⟩ := describes_ofForm_iff.1 hform
  cases hmembers

/-- Every form but that of functions asks for a definition. -/
theorem exists_definition (hother : form ≠ .function) : ∃ e, ("definition", e) ∈ parts form := by
  cases form <;> first
    | exact absurd rfl hother
    | exact ⟨_, List.mem_singleton.2 rfl⟩

/-- A definition that a form asks for must be there. -/
theorem not_describes_definition_none {e : Element} (hpart : ("definition", e) ∈ parts form) :
    ¬ elements.Describes .ignore e none := by
  intro h
  cases form with
  | function => simp [parts] at hpart
  | array | record =>
      obtain rfl : e = anyElement := by simpa [parts] using hpart
      exact not_describes_anyElement_none h
  | lazy =>
      obtain rfl : e = .reference (formName .function) false := by simpa [parts] using hpart
      have hfunction := of_reference (get?_formName .function) h
      obtain ⟨members, hmembers, -⟩ := describes_ofForm_iff.1 hfunction
      cases hmembers
  | simple =>
      simp only [parts, List.mem_singleton, Prod.mk.injEq, true_and] at hpart
      subst hpart
      cases h with
      | absent marked => cases marked
      | fewChoices few => exact absurd few (by decide)
  | literal | reference | enumeration | object | union =>
      simp only [parts, List.mem_singleton, Prod.mk.injEq, true_and] at hpart
      subst hpart
      cases h with
      | absent marked => cases marked

/-! ## Reading what the grammar describes -/

/-- Up to a size, what the grammar takes for an element inside another is read. -/
def ReadsUpTo (size : Nat) : Prop :=
  ∀ inner : Json, inner.size ≤ size → inner.Ordered →
    elements.Describes .ignore anyElement (some (.ofJson inner)) →
    ∃ e, Element.read .inside inner = .ok e

/-- A sequence of elements is read. -/
theorem exists_readSequence {o : Bool} (hordered : part.Ordered) (hread : ReadsUpTo part.size)
    (h : elements.Describes .ignore (.array anyElement o) (some (.ofJson part))) :
    ∃ es, Element.readSequence part = .ok es := by
  obtain ⟨values, hvalues, heach⟩ := of_array h
  obtain ⟨items, rfl, rfl⟩ := Value.ofJson_eq_array_iff.1 hvalues
  rw [Element.readSequence]
  refine Element.exists_readItems fun item hitem => hread item ?_ ?_ ?_
  · have hsize := Json.size_le_sizeItems hitem
    rw [Json.size]
    omega
  · exact Json.orderedItems_iff.1 hordered item hitem
  · exact heach _ (Value.mem_ofItems.2 ⟨item, hitem, rfl⟩)

/-- The attributes of an object element are read. -/
theorem exists_readAttributes {members : List (String × Json)}
    (hordered : (Json.object members).Ordered) (hread : ReadsUpTo (Json.object members).size)
    (h : elements.Describes .ignore (.record anyElement false)
      (some (.ofJson (.object members)))) :
    ∃ attributes, Element.readAttributes members = .ok attributes := by
  obtain ⟨values, hvalues, heach⟩ := of_record h
  cases hvalues
  refine Element.exists_readAttributes fun member hmember => hread member.2 ?_ ?_ ?_
  · have hsize := Json.size_le_sizeMembers (Keyed.find?_of_mem hordered.1 hmember)
    rw [Json.size]
    omega
  · exact Json.orderedMembers_iff.1 hordered.2 member hmember
  · exact heach _ (Value.mem_ofMembers.2 ⟨member, hmember, rfl⟩)

/-- A definition without elements inside is read. -/
theorem exists_readLeaf {e : Element}
    (hleaf : form ∈ [.literal, .simple, .enumeration, .reference])
    (hpart : ("definition", e) ∈ parts form)
    (h : elements.Describes .ignore e (some (.ofJson part))) :
    ∃ child, Element.readDefinition form part = .ok child ∧ child.form = form := by
  rw [Element.readDefinition_eq_readLeaf hleaf]
  cases form with
  | literal | reference =>
      obtain rfl : e = aString := by simpa [parts] using hpart
      obtain ⟨text, htext⟩ := of_string h
      obtain rfl := Value.ofJson_eq_string_iff.1 htext
      exact ⟨_, rfl, rfl⟩
  | simple =>
      obtain rfl : e = .enumeration (SimpleKind.choices.map (·.1)) false := by
        simpa [parts] using hpart
      obtain ⟨text, hmem, htext⟩ := of_enumeration (by decide) h
      obtain rfl := Value.ofJson_eq_string_iff.1 htext
      obtain ⟨kind, hkind⟩ := Element.exists_choose hmem
      refine ⟨.simple kind false, ?_, rfl⟩
      rw [Element.readLeaf, Json.asChoice, hkind]
      rfl
  | enumeration =>
      obtain rfl : e = .array aString false := by simpa [parts] using hpart
      obtain ⟨values, hvalues, heach⟩ := of_array h
      obtain ⟨items, rfl, rfl⟩ := Value.ofJson_eq_array_iff.1 hvalues
      have hstrings : ∀ item ∈ items, ∃ text, item = Json.string text := by
        intro item hitem
        obtain ⟨text, htext⟩ := of_string (heach _ (Value.mem_ofItems.2 ⟨item, hitem, rfl⟩))
        exact ⟨text, Value.ofJson_eq_string_iff.1 htext⟩
      obtain ⟨texts, htexts⟩ := Element.exists_asStrings hstrings
      refine ⟨.enumeration texts false, ?_, rfl⟩
      rw [Element.readLeaf, htexts]
      rfl
  | object | array | record | union | function | lazy => exact absurd hleaf (by decide)

/-- The definition that a form asks for is read, and gives an element of that
form. -/
theorem exists_readDefinition {e : Element} (hordered : part.Ordered)
    (hread : ReadsUpTo part.size) (hpart : ("definition", e) ∈ parts form)
    (h : elements.Describes .ignore e (some (.ofJson part))) :
    ∃ child, Element.readDefinition form part = .ok child ∧ child.form = form := by
  cases form with
  | function => simp [parts] at hpart
  | literal | reference | simple | enumeration => exact exists_readLeaf (by decide) hpart h
  | object =>
      obtain rfl : e = .record anyElement false := by simpa [parts] using hpart
      obtain ⟨values, hvalues, -⟩ := of_record h
      obtain ⟨members, rfl, -⟩ := Value.ofJson_eq_object_iff.1 hvalues
      obtain ⟨attributes, hattributes⟩ := exists_readAttributes hordered hread h
      refine ⟨.object attributes false, ?_, rfl⟩
      rw [Element.readDefinition, hattributes]
      rfl
  | array =>
      obtain rfl : e = anyElement := by simpa [parts] using hpart
      obtain ⟨child, hchild⟩ := hread part (Nat.le_refl _) hordered h
      refine ⟨.array child false, ?_, rfl⟩
      rw [Element.readDefinition, hchild]
      rfl
  | record =>
      obtain rfl : e = anyElement := by simpa [parts] using hpart
      obtain ⟨child, hchild⟩ := hread part (Nat.le_refl _) hordered h
      refine ⟨.record child false, ?_, rfl⟩
      rw [Element.readDefinition, hchild]
      rfl
  | lazy =>
      obtain rfl : e = .reference (formName .function) false := by simpa [parts] using hpart
      have hfunction := of_reference (get?_formName .function) h
      have hany := describes_anyElement_iff.2 ⟨.function, hfunction⟩
      obtain ⟨child, hchild⟩ := hread part (Nat.le_refl _) hordered hany
      refine ⟨.lazy child false, ?_, rfl⟩
      rw [Element.readDefinition, hchild]
      rfl
  | union =>
      obtain rfl : e = .array anyElement false := by simpa [parts] using hpart
      obtain ⟨es, hes⟩ := exists_readSequence hordered hread h
      refine ⟨.union es false, ?_, rfl⟩
      rw [Element.readDefinition, hes]
      rfl

/-- A part is read if whatever the form asks for under its name describes it. -/
theorem partReads {key : String} (hordered : part.Ordered) (hread : ReadsUpTo part.size)
    (h : ∀ a ∈ attributes form, a.1 = key →
      elements.Describes .ignore a.2 (some (.ofJson part))) :
    Element.PartReads form key part where
  mark := by
    intro hkey
    have hmark : ("optional", .simple .boolean true) ∈ attributes form := by
      simp [attributes]
    obtain ⟨b, hb⟩ := of_boolean (h _ hmark hkey.symm)
    exact ⟨b, by rw [Value.ofJson_eq_bool_iff.1 hb, Json.asBool]⟩
  args := by
    rintro rfl hkey
    have hargs : ("args", .array anyElement true) ∈ attributes .function := by
      simp [attributes, parts]
    exact exists_readSequence hordered hread (h _ hargs hkey.symm)
  returns := by
    rintro rfl hkey
    have hreturns : ("returns", anyElement.optional) ∈ attributes .function := by
      simp [attributes, parts]
    exact hread part (Nat.le_refl _) hordered (unmark_reference (h _ hreturns hkey.symm))
  definition := by
    intro hother hkey
    obtain ⟨e, he⟩ := exists_definition hother
    have hdescribes := h _ (List.mem_append_right _ he) hkey.symm
    exact exists_readDefinition hordered hread he hdescribes

/-- A document that the grammar describes as an element is read, as an element of
the form of its tag. -/
theorem exists_read_of_describes (hordered : d.Ordered)
    (h : elements.Describes .ignore anyElement (some (.ofJson d))) (standing : Element.Standing) :
    ∃ e, Element.read standing d = .ok e ∧ d.get? "type" = some (.string e.form.tag) := by
  induction hsize : d.size using Nat.strongRecOn generalizing d standing with
  | ind size ih =>
      obtain ⟨form, hform⟩ := describes_anyElement_iff.1 h
      obtain ⟨values, hvalues, heach⟩ := describes_ofForm_iff.1 hform
      obtain ⟨members, rfl, rfl⟩ := Value.ofJson_eq_object_iff.1 (Option.some.inj hvalues)
      simp only [Value.find?_ofMembers] at heach
      have htag : Keyed.find? "type" members = some (.string form.tag) := by
        have htype := of_literal (heach ("type", .literal form.tag false) (by simp [attributes]))
        obtain ⟨tag, htag, htext⟩ := Option.map_eq_some_iff.1 htype
        rw [htag, Value.ofJson_eq_string_iff.1 htext]
      have hparts : ∀ part ∈ members, Element.PartReads form part.1 part.2 := by
        rintro ⟨key, part⟩ hmem
        have hfound := Keyed.find?_of_mem hordered.1 hmem
        have hsmaller : part.size < size := by
          have hle := Json.size_le_sizeMembers hfound
          rw [Json.size] at hsize
          omega
        refine partReads (Json.orderedMembers_iff.1 hordered.2 _ hmem) ?_ ?_
        · intro inner hinner hsorted hdescribes
          obtain ⟨e, he, -⟩ := ih inner.size (Nat.lt_of_le_of_lt hinner hsmaller) hsorted
            hdescribes .inside rfl
          exact ⟨e, he⟩
        · rintro ⟨name, e⟩ ha rfl
          simpa [hfound] using heach _ ha
      have hdefinition : form ≠ .function → "definition" ∈ Keyed.keys members := by
        intro hother
        obtain ⟨e, he⟩ := exists_definition hother
        cases hfound : Keyed.find? "definition" members with
        | some part => exact Keyed.mem_keys_of_find? hfound
        | none =>
            have hnone := heach _ (List.mem_append_right _ he)
            rw [hfound] at hnone
            exact absurd hnone (not_describes_definition_none he)
      obtain ⟨e, he, rfl⟩ := 
        Element.exists_read_of_parts htag hparts hdefinition
      exact ⟨e, he, htag⟩

/-! ## Sound validation -/

/-- A document with a valid report as an element is read under every name. -/
theorem exists_element_of_isValid {report : Report} (hordered : d.Ordered)
    (hreport : validateElement d = .ok report) (hvalid : report.isValid = true) (name : String) :
    ∃ e, Element.ofJson name d = .ok e ∧ d.get? "type" = some (.string e.form.tag) := by
  have hunion := (isValid_iff_describes get?_elementName hreport).1 hvalid
  obtain ⟨e, he, htag⟩ := exists_read_of_describes hordered (.reference get?_elementName hunion)
    .outermost
  exact ⟨e, by rw [Element.ofJson, he], htag⟩

/-- A document with a valid report as a set is read. -/
theorem exists_set_of_isValid {report : Report} (hordered : d.Ordered)
    (hreport : validateSet d = .ok report) (hvalid : report.isValid = true) :
    ∃ set, SchemaSet.ofJson d = .ok set := by
  have hrecord := (isValid_iff_describes get?_setName hreport).1 hvalid
  obtain ⟨values, hvalues, heach⟩ := of_record hrecord
  obtain ⟨members, rfl, rfl⟩ := Value.ofJson_eq_object_iff.1 hvalues
  refine SchemaSet.exists_ofJson fun member hmember => ?_
  have hdescribes := heach _ (Value.mem_ofMembers.2 ⟨member, hmember, rfl⟩)
  obtain ⟨e, he, -⟩ := exists_read_of_describes
    (Json.orderedMembers_iff.1 hordered.2 member hmember) hdescribes .outermost
  exact ⟨e, by rw [Element.ofJson, he]⟩

end Grammar

/-- The compiled set of a document. -/
def SchemaSet.compileJson (settings : CompilerSettings) (registry : Handle) (document : Json) :
    Except SchemaError CompiledSet := do
  .ok ((← SchemaSet.ofJson document).compile settings registry)

/-- The grammar is sound for the reader.  There is a report on every document, as
an element and as a set.  A valid report on an element promises that it is read,
as an element of the form of its tag; a valid one on a set that the set is read
and compiles under all settings. -/
theorem validation_sound (d : Json) :
    (∃ report, Grammar.validateElement d = .ok report ∧
      (d.Ordered → report.isValid = true → ∀ name, ∃ e,
        Element.ofJson name d = .ok e ∧ d.get? "type" = some (.string e.form.tag))) ∧
    (∃ report, Grammar.validateSet d = .ok report ∧
      (d.Ordered → report.isValid = true →
        (∃ set, SchemaSet.ofJson d = .ok set) ∧
        ∀ settings registry, ∃ compiled,
          SchemaSet.compileJson settings registry d = .ok compiled)) := by
  constructor
  · obtain ⟨report, hreport, -⟩ := Grammar.exists_validate Grammar.get?_elementName (.ofJson d)
    exact ⟨report, hreport, fun hordered hvalid =>
      Grammar.exists_element_of_isValid hordered hreport hvalid⟩
  · obtain ⟨report, hreport, -⟩ := Grammar.exists_validate Grammar.get?_setName (.ofJson d)
    refine ⟨report, hreport, fun hordered hvalid => ?_⟩
    obtain ⟨set, hset⟩ := Grammar.exists_set_of_isValid hordered hreport hvalid
    refine ⟨⟨set, hset⟩, fun settings registry => ?_⟩
    exact ⟨set.compile settings registry, by rw [SchemaSet.compileJson, hset]; rfl⟩

/-- A record of anything, as a document. -/
def anyRecord : Json :=
  .object [("definition", .object [("definition", .string "any"), ("type", .string "simpleType")]),
    ("type", .string "record")]

/-- The grammar takes it for an element, as the documents of two forms. -/
theorem describes_anyRecord :
    Grammar.elements.Describes .ignore Grammar.anyElement (some (.ofJson anyRecord)) := by
  have hany : Grammar.elements.Describes .ignore Grammar.anyElement (some (.ofJson
      (.object [("definition", .string "any"), ("type", .string "simpleType")]))) := by
    refine Grammar.describes_anyElement_iff.2
      ⟨.simple, Grammar.describes_ofForm_iff.2 ⟨_, rfl, ?_⟩⟩
    simp only [Grammar.attributes, Grammar.parts, List.cons_append, List.nil_append,
      List.forall_mem_cons]
    exact ⟨.literal, .absent rfl, .choice (by decide), nofun⟩
  refine Grammar.describes_anyElement_iff.2 ⟨.record, Grammar.describes_ofForm_iff.2 ⟨_, rfl, ?_⟩⟩
  simp only [Grammar.attributes, Grammar.parts, List.cons_append, List.nil_append,
    List.forall_mem_cons]
  exact ⟨.literal, .absent rfl, hany, nofun⟩

/-- A valid element, and a valid set with that element in it. -/
theorem validation_sound_anyRecord :
    (∃ e, Element.ofJson "rows" anyRecord = .ok e ∧
      anyRecord.get? "type" = some (.string e.form.tag)) ∧
    ∃ compiled, SchemaSet.compileJson {} .detached (.object [("rows", anyRecord)]) =
      .ok compiled := by
  have hordered : anyRecord.Ordered := by
    have hkeys : "definition" < "type" := by decide
    exact ⟨List.pairwise_pair.2 hkeys,
      ⟨List.pairwise_pair.2 hkeys, trivial, trivial, trivial⟩, trivial, trivial⟩
  constructor
  · obtain ⟨⟨report, hreport, hread⟩, -⟩ := validation_sound anyRecord
    have hunion := SchemaSet.Describes.of_reference Grammar.get?_elementName describes_anyRecord
    exact hread hordered
      ((Grammar.isValid_iff_describes Grammar.get?_elementName hreport).2 hunion) "rows"
  · obtain ⟨-, report, hreport, hread⟩ := validation_sound (.object [("rows", anyRecord)])
    refine (hread ⟨List.pairwise_singleton .., hordered, trivial⟩ ?_).2 {} .detached
    refine (Grammar.isValid_iff_describes Grammar.get?_setName hreport).2 ?_
    refine .record fun member hmember => ?_
    obtain rfl := List.mem_singleton.1 hmember
    exact describes_anyRecord

end SchemaSets
