import SchemaSets.Element.Document
import SchemaSets.Proofs.Nodes
import SchemaSets.Proofs.Reading

/-!
# Written elements are read back

The writer leaves out what the reader fills in: a mark that is not set, a result
that a function does not have.  It puts the tag among the parts, and the reader
passes over it once the tag has told the form.  So reading the document of an
element gives the element (`read_toJson`), whatever names its attributes have:
an attribute called `type` stands in a document of its own and is never taken
for a tag.

The proof goes along the element.  A document with a definition is read if its
definition is (`read_tagged`), a document of a function if its arguments are and
what it returns (`read_taggedFunction`); what stands in lists is known of every
member.

## Main results

* `read_toJson` — the document of an element is read as that element, wherever
  it stands.
* `written_reads_back` — elements and sets come back from their documents, which
  show the form and the mark.
-/

namespace SchemaSets

namespace Element

variable {form : Form} {o : Bool} {standing : Standing}

/-! ## The parts of a document -/

/-- The parts of a document with a definition. -/
theorem get?_tagged (form : Form) (definition : Json) (o : Bool) :
    (tagged form definition o).get? "definition" = some definition ∧
      (tagged form definition o).get? "optional" = (if o then some (.bool true) else none) ∧
      (tagged form definition o).get? "type" = some (.string form.tag) := by
  cases o <;> exact ⟨rfl, rfl, rfl⟩

/-- The parts of the document of a function. -/
theorem get?_taggedFunction (args : List Json) (returns : Option Json) (o : Bool) :
    (taggedFunction args returns o).get? "args" = some (.array args) ∧
      (taggedFunction args returns o).get? "returns" = returns ∧
      (taggedFunction args returns o).get? "optional" = (if o then some (.bool true) else none) ∧
      (taggedFunction args returns o).get? "type" = some (.string Form.function.tag) := by
  cases o <;> cases returns <;> exact ⟨rfl, rfl, rfl, rfl⟩

/-- The document of an element is an object. -/
theorem exists_members_toJson (e : Element) : ∃ members, e.toJson = .object members := by
  cases e with
  | function args returns o => cases returns <;> exact ⟨_, rfl⟩
  | _ => exact ⟨_, rfl⟩

/-- The document of an element has the tag of its form. -/
theorem get?_type_toJson (e : Element) : e.toJson.get? "type" = some (.string e.form.tag) := by
  cases e with
  | function args returns o =>
      cases returns with
      | none => exact (get?_taggedFunction _ none o).2.2.2
      | some r => exact (get?_taggedFunction _ (some _) o).2.2.2
  | _ => exact (get?_tagged _ _ _).2.2

/-- The document of an element has a mark exactly if the element has one. -/
theorem get?_optional_toJson (e : Element) :
    e.toJson.get? "optional" = if e.isOptional then some (.bool true) else none := by
  cases e with
  | function args returns o =>
      cases returns with
      | none => exact (get?_taggedFunction _ none o).2.2.1
      | some r => exact (get?_taggedFunction _ (some _) o).2.2.1
  | _ => exact (get?_tagged _ _ _).2.1

/-! ## Reading the parts in the order in which they are written -/

/-- A mark is taken over if there is one. -/
theorem readParts_optionalMember {draft : Draft} (hunmarked : draft.isOptional = false)
    (o : Bool) (rest : List (String × Json)) :
    readParts form draft (optionalMember o ++ rest) =
      readParts form { draft with isOptional := o } rest := by
  cases o with
  | false =>
      obtain ⟨definition, args, returns, mark⟩ := draft
      cases hunmarked
      rfl
  | true =>
      show readParts form draft (("optional", .bool true) :: rest) = _
      rw [readParts, if_pos rfl]
      rfl

/-- The tag is no part, and the last to be passed over. -/
theorem readParts_tag (form : Form) (draft : Draft) (tag : Json) :
    readParts form draft [("type", tag)] = .ok draft := by
  rw [readParts, if_neg (by decide)]
  by_cases hfunction : form = .function
  · rw [if_pos hfunction, if_neg (by decide), if_neg (by decide), readParts]
  · rw [if_neg hfunction, if_neg (by decide), readParts]

/-- A result is taken over if there is one. -/
theorem readParts_returns {draft : Draft} (hnone : draft.returns = none)
    {returns : Option Element}
    (hreads : ∀ r, returns = some r → read .inside r.toJson = .ok r)
    (rest : List (String × Json)) :
    readParts .function draft ((returns.map fun r => ("returns", r.toJson)).toList ++ rest) =
      readParts .function { draft with returns := returns } rest := by
  cases returns with
  | none =>
      obtain ⟨definition, args, result, mark⟩ := draft
      cases hnone
      rfl
  | some r =>
      have hpresent : r.toJson.isNull = false := by
        obtain ⟨members, hmembers⟩ := r.exists_members_toJson
        rw [hmembers]
        rfl
      show readParts .function draft (("returns", r.toJson) :: rest) = _
      rw [readParts, if_neg (by decide), if_pos rfl, if_neg (by decide), if_pos rfl, hpresent,
        hreads r rfl]
      rfl

/-- A document is read as its definition, marked. -/
theorem read_tagged (form : Form) (hform : form ≠ .function) {definition : Json} {e : Element}
    (h : readDefinition form definition = .ok e) :
    read standing (tagged form definition o) = .ok (e.withOptional o) := by
  have hparts : readParts form {} (("definition", definition) :: optionalMember o ++
      [("type", .string form.tag)]) = .ok { definition := some e, isOptional := o } := by
    rw [List.cons_append, readParts, if_neg (by decide), if_neg hform, if_pos rfl, h]
    show readParts form _ _ = _
    rw [readParts_optionalMember rfl, readParts_tag]
  rw [tagged, read_object (get?_tagged form definition o).2.2, hparts]
  cases form <;> first
    | exact absurd rfl hform
    | rfl

/-- A document of a function is read as that function, if its arguments and what
it returns are read as they should be. -/
theorem read_taggedFunction (standing : Standing) (o : Bool) {args : List Element}
    {returns : Option Element} (hargs : readItems (listToJson args) = .ok args)
    (hreturns : ∀ r, returns = some r → read .inside r.toJson = .ok r) :
    read standing (taggedFunction (listToJson args) (returns.map toJson) o) =
      .ok (.function args returns o) := by
  have hparts : readParts .function {} (("args", .array (listToJson args)) :: optionalMember o ++
      ((returns.map toJson).map fun r => ("returns", r)).toList ++
        [("type", .string Form.function.tag)]) =
      .ok { args := args, returns := returns, isOptional := o } := by
    rw [List.cons_append, List.cons_append, readParts, if_neg (by decide), if_pos rfl, if_pos rfl,
      readSequence, hargs]
    show readParts .function _ _ = _
    rw [List.append_assoc, readParts_optionalMember rfl, Option.map_map]
    exact (readParts_returns rfl hreturns _).trans (readParts_tag ..)
  rw [taggedFunction, read_object (get?_taggedFunction _ _ o).2.2.2, hparts]
  rfl

/-! ## Documents in lists -/

/-- A list of documents is read if each of them is. -/
theorem readItems_listToJson {es : List Element}
    (h : ∀ e ∈ es, read .inside e.toJson = .ok e) : readItems (listToJson es) = .ok es := by
  induction es with
  | nil => rw [listToJson, readItems]
  | cons e es ih =>
      rw [List.forall_mem_cons] at h
      rw [listToJson, readItems, h.1, ih h.2]
      rfl

/-- Documents under names are read if each of them is. -/
theorem readAttributes_attributesToJson {attributes : List (String × Element)}
    (h : ∀ a ∈ attributes, read .inside a.2.toJson = .ok a.2) :
    readAttributes (attributesToJson attributes) = .ok attributes := by
  induction attributes with
  | nil => rw [attributesToJson, readAttributes]
  | cons a rest ih =>
      rw [List.forall_mem_cons] at h
      rw [attributesToJson, readAttributes, h.1, ih h.2]
      rfl

/-- An array of strings is read as these strings. -/
theorem asStrings_strings (values : List String) : (Json.strings values).asStrings = .ok values := by
  have hmap : (values.map Json.string).mapM Json.asString = .ok values := by
    induction values with
    | nil => rfl
    | cons value rest ih =>
        rw [List.map_cons, List.mapM_cons, ih]
        rfl
  exact hmap

/-! ## Elements -/

/-- The document of an element is read as that element, wherever it stands. -/
theorem read_toJson (standing : Standing) (e : Element) : read standing e.toJson = .ok e := by
  induction e using Element.induction generalizing standing with
  | literal text o =>
      refine read_tagged .literal (by decide) (e := .literal text false) ?_
      rw [readDefinition_eq_readLeaf (by decide)]
      rfl
  | simple kind o =>
      refine read_tagged .simple (by decide) (e := .simple kind false) ?_
      rw [readDefinition_eq_readLeaf (by decide)]
      cases kind <;> rfl
  | enumeration values o =>
      refine read_tagged .enumeration (by decide) (e := .enumeration values false) ?_
      rw [readDefinition_eq_readLeaf (by decide), readLeaf, asStrings_strings]
      rfl
  | object attributes o ih =>
      refine read_tagged .object (by decide) (e := .object attributes false) ?_
      rw [readDefinition, readAttributes_attributesToJson fun a ha => ih a ha .inside]
      rfl
  | array item o ih =>
      refine read_tagged .array (by decide) (e := .array item false) ?_
      rw [readDefinition, ih]
      rfl
  | record value o ih =>
      refine read_tagged .record (by decide) (e := .record value false) ?_
      rw [readDefinition, ih]
      rfl
  | union branches o ih =>
      refine read_tagged .union (by decide) (e := .union branches false) ?_
      rw [readDefinition, readSequence, readItems_listToJson fun e he => ih e he .inside]
      rfl
  | function args returns o hargs hreturns =>
      have hread := read_taggedFunction standing o
        (readItems_listToJson fun e he => hargs e he .inside) fun r hr => hreturns r hr .inside
      cases returns <;> exact hread
  | lazy child o ih =>
      refine read_tagged .lazy (by decide) (e := .lazy child false) ?_
      rw [readDefinition, ih]
      rfl
  | reference target o =>
      refine read_tagged .reference (by decide) (e := .reference target false) ?_
      rw [readDefinition_eq_readLeaf (by decide)]
      rfl

/-- The document of an element is the entry of any name. -/
theorem ofJson_toJson (name : String) (e : Element) : ofJson name e.toJson = .ok e := by
  rw [ofJson, read_toJson]

end Element

/-! ## Sets -/

/-- The entries of a set are read from their documents, in order. -/
theorem SchemaSet.readEntries_attributesToJson (entries : List (String × Element)) :
    readEntries (Element.attributesToJson entries) = .ok entries := by
  induction entries with
  | nil => rfl
  | cons entry rest ih =>
      obtain ⟨name, e⟩ := entry
      rw [Element.attributesToJson, readEntries, Element.ofJson_toJson, ih]
      rfl

/-- The document of a set is read as that set. -/
theorem SchemaSet.ofJson_toJson (set : SchemaSet) : ofJson set.toJson = .ok set := by
  rw [toJson, ofJson, readEntries_attributesToJson]
  rfl

/-- Every element is read back from its document under every name; the document
shows the form of the element under `type`, and has a mark exactly if the element
is marked.  Every set is read back from its document. -/
theorem written_reads_back :
    (∀ (name : String) (e : Element),
      Element.ofJson name e.toJson = .ok e ∧
      e.toJson.get? "type" = some (.string e.form.tag) ∧
      ((e.toJson.get? "optional").isSome = true ↔ e.isOptional = true)) ∧
    ∀ set : SchemaSet, SchemaSet.ofJson set.toJson = .ok set := by
  refine ⟨fun name e => ⟨e.ofJson_toJson name, e.get?_type_toJson, ?_⟩, SchemaSet.ofJson_toJson⟩
  rw [e.get?_optional_toJson]
  cases e.isOptional <;> simp

end SchemaSets
