import SchemaSets.Element.Reader
import SchemaSets.Error

/-!
# When a document is read

The reader goes through the parts of a document in the order in which they
stand and keeps a draft of what it read so far.  Each part is looked at by its
own name, so whether the reader gets through is a matter of the single parts
(`PartReads`), wherever they stand.

## Main results

* `exists_read_of_parts` — an object is read, as an element of the form of its
  tag, if each of its parts can be read as what it is for that form.
-/

namespace SchemaSets

namespace Element

variable {form : Form} {draft : Draft} {key : String} {part : Json}
  {parts : List (String × Json)}

/-! ## Parts -/

/-- A part can be read as what it is for a form.  Parts of other names are passed
over. -/
structure PartReads (form : Form) (key : String) (part : Json) : Prop where
  mark : key = "optional" → ∃ b, part.asBool = .ok b
  args : form = .function → key = "args" → ∃ es, readSequence part = .ok es
  returns : form = .function → key = "returns" → ∃ e, read .inside part = .ok e
  definition : form ≠ .function → key = "definition" →
    ∃ e, readDefinition form part = .ok e ∧ e.form = form

/-- A draft has a definition of a form. -/
def Draft.Defines (draft : Draft) (form : Form) : Prop :=
  ∃ e, draft.definition = some e ∧ e.form = form

/-- A part that can be read leads from a draft to a next one, which still has the
definition or has got it from this part. -/
theorem exists_readParts_cons (h : PartReads form key part) (draft : Draft) :
    ∃ next : Draft, (∀ rest, readParts form draft ((key, part) :: rest) =
        readParts form next rest) ∧
      (draft.Defines form ∨ (form ≠ .function ∧ key = "definition") → next.Defines form) := by
  by_cases hoptional : key = "optional"
  · obtain ⟨b, hb⟩ := h.mark hoptional
    refine ⟨{ draft with isOptional := b }, fun rest => ?_, ?_⟩
    · rw [readParts, if_pos hoptional, hb]
      rfl
    · rintro (hdefines | ⟨-, rfl⟩)
      · exact hdefines
      · exact absurd hoptional (by decide)
  · by_cases hfunction : form = .function
    · have hkept : ∀ next : Draft, next.definition = draft.definition →
          (draft.Defines form ∨ (form ≠ .function ∧ key = "definition") →
            next.Defines form) := by
        rintro next hsame (⟨e, he, hform⟩ | ⟨hother, -⟩)
        · exact ⟨e, hsame.trans he, hform⟩
        · exact absurd hfunction hother
      by_cases hargs : key = "args"
      · obtain ⟨es, hes⟩ := h.args hfunction hargs
        refine ⟨{ draft with args := es }, fun rest => ?_, hkept _ rfl⟩
        rw [readParts, if_neg hoptional, if_pos hfunction, if_pos hargs, hes]
        rfl
      · by_cases hreturns : key = "returns"
        · obtain ⟨e, he⟩ := h.returns hfunction hreturns
          by_cases hnull : part.isNull = true
          · refine ⟨{ draft with returns := none }, fun rest => ?_, hkept _ rfl⟩
            rw [readParts, if_neg hoptional, if_pos hfunction, if_neg hargs, if_pos hreturns,
              if_pos hnull]
          · refine ⟨{ draft with returns := some e }, fun rest => ?_, hkept _ rfl⟩
            rw [readParts, if_neg hoptional, if_pos hfunction, if_neg hargs, if_pos hreturns,
              if_neg hnull, he]
            rfl
        · refine ⟨draft, fun rest => ?_, hkept _ rfl⟩
          rw [readParts, if_neg hoptional, if_pos hfunction, if_neg hargs, if_neg hreturns]
    · by_cases hdefinition : key = "definition"
      · obtain ⟨e, he, hform⟩ := h.definition hfunction hdefinition
        refine ⟨{ draft with definition := some e }, fun rest => ?_, fun _ => ⟨e, rfl, hform⟩⟩
        rw [readParts, if_neg hoptional, if_neg hfunction, if_pos hdefinition, he]
        rfl
      · refine ⟨draft, fun rest => ?_, ?_⟩
        · rw [readParts, if_neg hoptional, if_neg hfunction, if_neg hdefinition]
        · rintro (hdefines | ⟨-, hkey⟩)
          · exact hdefines
          · exact absurd hkey hdefinition

/-- Parts that can be read are read, and a definition among them is kept. -/
theorem exists_readParts (h : ∀ part ∈ parts, PartReads form part.1 part.2) (draft : Draft) :
    ∃ result, readParts form draft parts = .ok result ∧
      (draft.Defines form ∨ (form ≠ .function ∧ "definition" ∈ Keyed.keys parts) →
        result.Defines form) := by
  induction parts generalizing draft with
  | nil =>
      refine ⟨draft, by rw [readParts], ?_⟩
      rintro (hdefines | ⟨-, hmem⟩)
      · exact hdefines
      · cases hmem
  | cons part rest ih =>
      obtain ⟨next, hnext, hkept⟩ := exists_readParts_cons (h part List.mem_cons_self) draft
      obtain ⟨result, hresult, hdefines⟩ := ih (fun p hp => h p (List.mem_cons_of_mem _ hp)) next
      refine ⟨result, (hnext rest).trans hresult, ?_⟩
      rintro (hdraft | ⟨hother, hmem⟩)
      · exact hdefines (.inl (hkept (.inl hdraft)))
      · rcases List.mem_cons.1 hmem with hkey | hlater
        · exact hdefines (.inl (hkept (.inr ⟨hother, hkey.symm⟩)))
        · exact hdefines (.inr ⟨hother, hlater⟩)

/-! ## Elements -/

/-- A mark does not change the form. -/
@[simp] theorem form_withOptional (e : Element) (o : Bool) : (e.withOptional o).form = e.form := by
  cases e <;> rfl

/-- A draft of a function, or one with a definition, is an element of its form. -/
theorem exists_finish {l : Layout} (hsurplus : l.surplus = none)
    (h : l.form ≠ .function → draft.Defines l.form) :
    ∃ e, draft.finish l = .ok e ∧ e.form = l.form := by
  obtain ⟨form, parts, lacking, surplus⟩ := l
  subst hsurplus
  by_cases hfunction : form = .function
  · subst hfunction
    exact ⟨_, rfl, rfl⟩
  · obtain ⟨e, he, hform⟩ := h hfunction
    refine ⟨e.withOptional draft.isOptional, ?_, by rw [form_withOptional, hform]⟩
    cases form <;> first
      | exact absurd rfl hfunction
      | simp only [Draft.finish, he]

/-- A tag names its form. -/
theorem choose_tag (form : Form) : Json.choose Form.choices form.tag = .ok form := by
  cases form <;> rfl

/-- An object whose tag names a form is read by its parts. -/
theorem read_object {standing : Standing}
    (htag : Keyed.find? "type" parts = some (.string form.tag)) :
    read standing (.object parts) = elsewhere (do
      let draft ← readParts form {} parts
      draft.finish ⟨form, parts, .missingField "definition", none⟩) := by
  have hlayout : layout standing (.object parts) =
      .ok ⟨form, parts, .missingField "definition", none⟩ := by
    simp only [layout, htag, readTag, chooseForm, choose_tag]
  rw [read]
  split
  · next fault hfault =>
      rw [hlayout] at hfault
      cases hfault
  · next l hl =>
      rw [hlayout] at hl
      cases hl
      rfl

/-- An object whose tag names a form is read, as an element of that form, if each
of its parts can be read and a definition is there where one is needed. -/
theorem exists_read_of_parts {standing : Standing}
    (htag : Keyed.find? "type" parts = some (.string form.tag))
    (hparts : ∀ part ∈ parts, PartReads form part.1 part.2)
    (hdefinition : form ≠ .function → "definition" ∈ Keyed.keys parts) :
    ∃ e, read standing (.object parts) = .ok e ∧ e.form = form := by
  obtain ⟨draft, hdraft, hdefines⟩ := exists_readParts hparts {}
  have hdraftDefines : form ≠ .function → draft.Defines form :=
    fun hother => hdefines (.inr ⟨hother, hdefinition hother⟩)
  obtain ⟨e, he, hform⟩ := exists_finish
    (l := ⟨form, parts, .missingField "definition", none⟩) rfl hdraftDefines
  refine ⟨e, ?_, hform⟩
  rw [read_object htag, hdraft]
  show elsewhere (draft.finish _) = _
  rw [he]
  rfl

/-! ## Definitions -/

/-- A name on a list of choices stands for one of them. -/
theorem exists_choose {α : Type} {choices : List (String × α)} {name : String}
    (h : name ∈ choices.map (·.1)) : ∃ a, Json.choose choices name = .ok a := by
  obtain ⟨choice, hchoice, rfl⟩ := List.mem_map.1 h
  unfold Json.choose
  split
  · exact ⟨_, rfl⟩
  · next hnone =>
      have hother := List.find?_eq_none.1 hnone choice hchoice
      exact absurd (decide_eq_true rfl) hother

/-- The definitions that hold no other element. -/
theorem readDefinition_eq_readLeaf (hleaf : form ∈ [.literal, .simple, .enumeration, .reference])
    (part : Json) : readDefinition form part = readLeaf form part := by
  cases form <;> first
    | rw [readDefinition] <;> intro hform <;> cases hform
    | exact absurd hleaf (by decide)


/-- A sequence is read if its items are. -/
theorem exists_readItems {items : List Json} (h : ∀ item ∈ items, ∃ e, read .inside item = .ok e) :
    ∃ es, readItems items = .ok es := by
  induction items with
  | nil => exact ⟨[], by rw [readItems]⟩
  | cons item rest ih =>
      obtain ⟨e, he⟩ := h item List.mem_cons_self
      obtain ⟨es, hes⟩ := ih fun x hx => h x (List.mem_cons_of_mem _ hx)
      refine ⟨e :: es, ?_⟩
      rw [readItems, he, hes]
      rfl

/-- Attributes are read if the document of each is. -/
theorem exists_readAttributes {members : List (String × Json)}
    (h : ∀ member ∈ members, ∃ e, read .inside member.2 = .ok e) :
    ∃ attributes, readAttributes members = .ok attributes := by
  induction members with
  | nil => exact ⟨[], by rw [readAttributes]⟩
  | cons member rest ih =>
      obtain ⟨e, he⟩ := h member List.mem_cons_self
      obtain ⟨attributes, hattributes⟩ := ih fun m hm => h m (List.mem_cons_of_mem _ hm)
      refine ⟨(member.1, e) :: attributes, ?_⟩
      rw [readAttributes, he, hattributes]
      rfl

/-- A sequence of texts is one of strings. -/
theorem exists_asStrings {items : List Json} (h : ∀ item ∈ items, ∃ text, item = .string text) :
    ∃ texts, (Json.array items).asStrings = .ok texts := by
  induction items with
  | nil => exact ⟨[], rfl⟩
  | cons item rest ih =>
      obtain ⟨text, rfl⟩ := h item List.mem_cons_self
      obtain ⟨texts, htexts⟩ := ih fun x hx => h x (List.mem_cons_of_mem _ hx)
      refine ⟨text :: texts, ?_⟩
      change List.mapM Json.asString rest = _ at htexts
      show List.mapM Json.asString (.string text :: rest) = _
      rw [List.mapM_cons, htexts]
      rfl

end Element

/-- A set is read if each of its entries is. -/
theorem SchemaSet.exists_ofJson {members : List (String × Json)}
    (h : ∀ member ∈ members, ∃ e, Element.ofJson member.1 member.2 = .ok e) :
    ∃ set, SchemaSet.ofJson (.object members) = .ok set := by
  have hentries : ∃ entries, SchemaSet.readEntries members = .ok entries := by
    induction members with
    | nil => exact ⟨[], rfl⟩
    | cons member rest ih =>
        obtain ⟨e, he⟩ := h member List.mem_cons_self
        obtain ⟨entries, hentries⟩ := ih fun m hm => h m (List.mem_cons_of_mem _ hm)
        refine ⟨(member.1, e) :: entries, ?_⟩
        rw [SchemaSet.readEntries, he, hentries]
        rfl
  obtain ⟨entries, hentries⟩ := hentries
  refine ⟨⟨entries⟩, ?_⟩
  rw [SchemaSet.ofJson, hentries]
  rfl

end SchemaSets
