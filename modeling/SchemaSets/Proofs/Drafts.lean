import Mathlib.Data.List.Forall2
import Mathlib.Tactic.MkIffOfInductiveProp
import SchemaSets.Proofs.Reading

/-!
# What the reader takes from a document

The reader looks at the parts of an element one after another and keeps a draft.  A
document has each part once, so what a draft holds in the end is told part by part:
what the part of a name was read as, or what was there from the start if no part has
the name (`readParts_eq_ok_iff`).  An element is finished from such a draft if and
only if its own parts are the ones that were written (`exists_finish_iff`).

None of this says which documents are right.  It turns the order in which the reader
works into a statement about parts, so that a grammar can be compared with the reader
part by part.
-/

namespace SchemaSets

/-! ## Simple data -/

namespace Json

variable {d : Json}

theorem asString_eq_ok_iff {text : String} : d.asString = .ok text ↔ d = .string text := by
  cases d <;> simp [asString]

theorem asBool_eq_ok_iff {b : Bool} : d.asBool = .ok b ↔ d = .bool b := by
  cases d <;> simp [asBool]

theorem isNull_iff : d.isNull = true ↔ d = .null := by
  cases d <;> simp [isNull]

theorem isEmpty_iff : d.isEmpty = true ↔ d = .null ∨ d = .object [] := by
  fun_cases isEmpty d <;> simp_all

/-- A sequence of texts is written as the strings that they are. -/
theorem asStrings_eq_ok_iff {texts : List String} :
    d.asStrings = .ok texts ↔ d = .array (texts.map .string) := by
  have hmap : ∀ items : List Json,
      items.mapM asString = .ok texts ↔ items = texts.map .string := by
    intro items
    induction items generalizing texts with
    | nil => cases texts <;> simp [pure, Except.pure]
    | cons item rest ih =>
        rw [List.mapM_cons, bind_eq_ok_iff]
        simp only [bind_eq_ok_iff, asString_eq_ok_iff, ih]
        cases texts <;> simp [pure, Except.pure]
  cases d <;> simp [asStrings, asSequence, bind, Except.bind, hmap]

/-- A name stands for the choice that it is listed with, where no name is listed twice. -/
theorem choose_eq_ok_iff {α : Type} {choices : List (String × α)} {name : String} {a : α}
    (honce : (choices.map (·.1)).Nodup) : choose choices name = .ok a ↔ (name, a) ∈ choices := by
  induction choices with
  | nil => simp [choose]
  | cons choice rest ih =>
      obtain ⟨hnew, honce⟩ := List.nodup_cons.1 honce
      by_cases hname : choice.1 = name
      · have hother : (name, a) ∉ rest := fun hmem =>
          hnew (List.mem_map.2 ⟨(name, a), hmem, hname.symm⟩)
        simp [choose, hname, hother, Prod.ext_iff, eq_comm]
      · have hskip : choose (choice :: rest) name = .ok a ↔ choose rest name = .ok a := by
          simp only [choose, List.find?_cons, hname, decide_false]
          cases rest.find? fun choice => choice.1 = name <;> simp
        have hother : (name, a) ≠ choice := fun heq => hname (heq ▸ rfl)
        rw [hskip, ih honce, List.mem_cons, or_iff_right hother]

/-- A choice is written as its name, or as the only key with nothing under it. -/
theorem asChoice_eq_ok_iff {α : Type} {choices : List (String × α)} {isUnit : Json → Bool} {a : α} :
    asChoice choices isUnit d = .ok a ↔ ∃ name, choose choices name = .ok a ∧
      (d = .string name ∨ ∃ value, d = .object [(name, value)] ∧ isUnit value = true) := by
  fun_cases asChoice choices isUnit d with
  | case1 name => simp
  | case2 name value =>
      rw [bind_eq_ok_iff]
      cases hunit : isUnit value <;> simp [hunit]
  | case3 members hseveral =>
      have hother : ∀ name value, members ≠ [(name, value)] := hseveral
      simp [hother]
  | case4 d hstring hsingle _ =>
      have hname : ∀ name, d ≠ .string name := hstring
      have hmember : ∀ name value, d ≠ .object [(name, value)] := hsingle
      simp [hname, hmember]

end Json

namespace Element

/-! ## Elements inside elements -/

theorem inner_eq_ok_iff {α : Type} {x : Except Fault α} {a : α} : inner x = .ok a ↔ x = .ok a := by
  cases x <;> simp [inner]

theorem elsewhere_eq_ok_iff {α : Type} {x : Except Malformation α} {a : α} :
    elsewhere x = .ok a ↔ x = .ok a := by
  cases x <;> simp [elsewhere]

/-- A document is read as an element where it stands inside another. -/
def ReadsAs (document : Json) (e : Element) : Prop := read .inside document = .ok e

/-- Items are read one by one. -/
theorem readItems_eq_ok_iff {items : List Json} {es : List Element} :
    readItems items = .ok es ↔ List.Forall₂ ReadsAs items es := by
  induction items generalizing es with
  | nil => simp [readItems, eq_comm]
  | cons item rest ih =>
      rw [readItems, bind_eq_ok_iff]
      simp only [bind_eq_ok_iff, inner_eq_ok_iff, ih]
      cases es with
      | nil => simp
      | cons e es => simp [ReadsAs]

theorem readSequence_eq_ok_iff {d : Json} {es : List Element} :
    readSequence d = .ok es ↔ ∃ items, d = .array items ∧ List.Forall₂ ReadsAs items es := by
  cases d <;> simp [readSequence, readItems_eq_ok_iff]

/-- Attributes are read one by one and keep their names. -/
theorem readAttributes_eq_ok_iff {members : List (String × Json)}
    {attributes : List (String × Element)} :
    readAttributes members = .ok attributes ↔ Keyed.keys members = Keyed.keys attributes ∧
      List.Forall₂ ReadsAs (members.map Prod.snd) (attributes.map Prod.snd) := by
  induction members generalizing attributes with
  | nil => cases attributes <;> simp [readAttributes, Keyed.keys]
  | cons member rest ih =>
      obtain ⟨name, item⟩ := member
      rw [readAttributes, bind_eq_ok_iff]
      simp only [bind_eq_ok_iff, inner_eq_ok_iff, ih]
      cases attributes with
      | nil => simp [Keyed.keys]
      | cons first more =>
          obtain ⟨other, e⟩ := first
          simp [ReadsAs, Keyed.keys, and_assoc, and_comm, and_left_comm]

/-- What a function is read to return: nothing in particular, or an element. -/
def ReturnsAs (document : Json) : Option Element → Prop
  | none => document = .null
  | some e => ReadsAs document e

theorem not_readsAs_null {e : Element} : ¬ReadsAs .null e := by
  intro h
  rw [ReadsAs, read] at h
  cases h

/-- Only null is read as a function that returns nothing in particular. -/
theorem exists_returnsAs_iff {d : Json} {P : Option Element → Prop} :
    (∃ e?, ReturnsAs d e? ∧ P e?) ↔
      if d.isNull then P none else ∃ e, ReadsAs d e ∧ P (some e) := by
  by_cases hnull : d = .null
  · subst hnull
    simp [Option.exists, ReturnsAs, not_readsAs_null, Json.isNull]
  · simp [Option.exists, ReturnsAs, hnull, Json.isNull_iff]

/-! ## Parts -/

/-- The parts of an element that are written. -/
structure NamedParts where
  definition : Option Json
  args : Option Json
  returns : Option Json
  mark : Option Json

/-- The parts under the keys of an object. -/
def NamedParts.ofMembers (members : List (String × Json)) : NamedParts where
  definition := Keyed.find? "definition" members
  args := Keyed.find? "args" members
  returns := Keyed.find? "returns" members
  mark := Keyed.find? "optional" members

/-- The parts at the places of an array, its tag left out. -/
def NamedParts.ofItems (form : Form) (items : List Json) : NamedParts :=
  if form = .function then ⟨none, items[0]?, items[1]?, items[2]?⟩
  else ⟨items[0]?, none, none, items[1]?⟩

/-- The parts that an element of a form has. -/
def NamedParts.only (form : Form) (parts : NamedParts) : NamedParts where
  definition := if form ≠ .function then parts.definition else none
  args := if form = .function then parts.args else none
  returns := if form = .function then parts.returns else none
  mark := parts.mark

/-- A part that is written gives what it is read as, and one that is not gives what there
was before. -/
def Gives {α : Type} (reads : Json → α → Prop) (part : Option Json) (before after : α) : Prop :=
  match part with
  | none => after = before
  | some document => reads document after

section Gives

variable {α : Type} {reads : Json → α → Prop} {before after : α} {document : Json}

@[simp] theorem gives_none : Gives reads none before after ↔ after = before := .rfl

@[simp] theorem gives_some : Gives reads (some document) before after ↔ reads document after := .rfl

/-- One part after the other, of which at most one is written. -/
theorem gives_orElse {first second : Option Json} (hone : first = none ∨ second = none) :
    Gives reads (first.or second) before after ↔
      ∃ between, Gives reads first before between ∧ Gives reads second between after := by
  rcases hone with rfl | rfl <;> simp

end Gives

/-- The parts lead from a draft to a draft. -/
@[mk_iff]
structure NamedParts.Lead (form : Form) (parts : NamedParts) (draft result : Draft) : Prop where
  definition : Gives (fun d e? => ∃ e, readDefinition form d = .ok e ∧ e? = some e)
    (parts.only form).definition draft.definition result.definition
  args : Gives (fun d es => readSequence d = .ok es) (parts.only form).args draft.args result.args
  returns : Gives ReturnsAs (parts.only form).returns draft.returns result.returns
  mark : Gives (fun d b => d.asBool = .ok b) (parts.only form).mark draft.isOptional
    result.isOptional

theorem Draft.exists_iff {P : Draft → Prop} :
    (∃ draft, P draft) ↔
      ∃ definition args returns isOptional, P ⟨definition, args, returns, isOptional⟩ :=
  ⟨fun ⟨_, h⟩ => ⟨_, _, _, _, h⟩, fun ⟨_, _, _, _, h⟩ => ⟨_, h⟩⟩

/-- A member is looked at by itself and before the rest. -/
theorem readParts_cons_eq_ok_iff {form : Form} {draft result : Draft} {key : String} {part : Json}
    {rest : List (String × Json)} :
    readParts form draft ((key, part) :: rest) = .ok result ↔ ∃ next,
      (NamedParts.ofMembers [(key, part)]).Lead form draft next ∧
        readParts form next rest = .ok result := by
  rw [readParts]
  simp only [NamedParts.lead_iff, Draft.exists_iff, NamedParts.ofMembers, NamedParts.only,
    Keyed.find?]
  by_cases hmark : key = "optional"
  · subst hmark
    simp [bind_eq_ok_iff, and_assoc]
  by_cases hfunction : form = .function
  · subst hfunction
    by_cases hargs : key = "args"
    · subst hargs
      simp [bind_eq_ok_iff, and_assoc]
    by_cases hreturns : key = "returns"
    · subst hreturns
      simp only [String.reduceEq, ↓reduceIte, ne_eq, not_true_eq_false, gives_none, gives_some,
        exists_and_left, ↓existsAndEq, true_and, and_assoc, exists_returnsAs_iff, exists_eq_left]
      split <;> simp [bind_eq_ok_iff, inner_eq_ok_iff, ReadsAs]
    · simp [hmark, hargs, hreturns, and_assoc]
  by_cases hdefinition : key = "definition"
  · subst hdefinition
    simp [bind_eq_ok_iff, hfunction, and_assoc]
  · simp [hfunction, hmark, hdefinition, and_assoc]

/-- A part that is written in the first member or in a later one. -/
private theorem gives_cons_iff {α : Type} {reads : Json → α → Prop} {before after : α}
    {key : String} {part : Json} {rest : List (String × Json)} (hnew : Keyed.find? key rest = none)
    (name : String) :
    Gives reads (Keyed.find? name ((key, part) :: rest)) before after ↔ ∃ between,
      Gives reads (Keyed.find? name [(key, part)]) before between ∧
        Gives reads (Keyed.find? name rest) between after := by
  have hsplit : Keyed.find? name ((key, part) :: rest) =
      (Keyed.find? name [(key, part)]).or (Keyed.find? name rest) := by
    by_cases hname : key = name <;> simp [Keyed.find?, hname]
  rw [hsplit]
  refine gives_orElse ?_
  by_cases hname : key = name
  · exact .inr (hname ▸ hnew)
  · exact .inl (if_neg hname)

/-- Members lead from a draft to a draft one after the other. -/
theorem lead_cons_iff {form : Form} {draft result : Draft} {key : String} {part : Json}
    {rest : List (String × Json)} (hnew : Keyed.find? key rest = none) :
    (NamedParts.ofMembers ((key, part) :: rest)).Lead form draft result ↔ ∃ next,
      (NamedParts.ofMembers [(key, part)]).Lead form draft next ∧
        (NamedParts.ofMembers rest).Lead form next result := by
  have hgives : ∀ {α : Type} (reads : Json → α → Prop) (before after : α) (has : Prop)
      [Decidable has] (name : String),
      Gives reads (if has then Keyed.find? name ((key, part) :: rest) else none) before after ↔
        ∃ between,
          Gives reads (if has then Keyed.find? name [(key, part)] else none) before between ∧
          Gives reads (if has then Keyed.find? name rest else none) between after := by
    intro α reads before after has _ name
    split
    · exact gives_cons_iff hnew name
    · simp
  simp only [NamedParts.lead_iff, NamedParts.ofMembers, NamedParts.only]
  rw [hgives, hgives, hgives, gives_cons_iff hnew]
  constructor
  · rintro ⟨⟨definition, hd, hd'⟩, ⟨args, ha, ha'⟩, ⟨returns, hr, hr'⟩, mark, hm, hm'⟩
    exact ⟨⟨definition, args, returns, mark⟩, ⟨hd, ha, hr, hm⟩, hd', ha', hr', hm'⟩
  · rintro ⟨next, ⟨hd, ha, hr, hm⟩, hd', ha', hr', hm'⟩
    exact ⟨⟨_, hd, hd'⟩, ⟨_, ha, ha'⟩, ⟨_, hr, hr'⟩, _, hm, hm'⟩

/-- Parts of one name each lead to what the reader comes to. -/
theorem readParts_eq_ok_iff {form : Form} {draft result : Draft} {members : List (String × Json)}
    (honce : (Keyed.keys members).Nodup) :
    readParts form draft members = .ok result ↔
      (NamedParts.ofMembers members).Lead form draft result := by
  induction members generalizing draft with
  | nil =>
      obtain ⟨definition, args, returns, isOptional⟩ := draft
      obtain ⟨definition', args', returns', isOptional'⟩ := result
      simp [readParts, NamedParts.lead_iff, NamedParts.ofMembers, NamedParts.only, Keyed.find?,
        eq_comm]
  | cons member rest ih =>
      obtain ⟨key, part⟩ := member
      obtain ⟨hnew, honce⟩ := List.nodup_cons.1 honce
      have hnone : Keyed.find? key rest = none := by
        rw [← Option.not_isSome_iff_eq_none]
        exact fun hsome => hnew (Keyed.contains_iff.1 hsome)
      rw [readParts_cons_eq_ok_iff, lead_cons_iff hnone]
      simp only [ih honce]

/-! ## Definitions -/

@[simp] theorem isOptional_withOptional (e : Element) (o : Bool) :
    (e.withOptional o).isOptional = o := by
  cases e <;> rfl

/-- The mark given last counts. -/
@[simp] theorem withOptional_withOptional (e : Element) (o p : Bool) :
    (e.withOptional o).withOptional p = e.withOptional p := by
  cases e <;> rfl

/-- An element has its own mark. -/
@[simp] theorem withOptional_isOptional (e : Element) : e.withOptional e.isOptional = e := by
  cases e <;> rfl

/-- A document is read as the definition of an element, its mark left aside. -/
def DefinedBy (d : Json) : Element → Prop
  | .literal text _ => d = .string text
  | .simple kind _ => Json.asChoice SimpleKind.choices Json.isEmpty d = .ok kind
  | .enumeration values _ => d = .array (values.map .string)
  | .object attributes _ => ∃ members, d = .object members ∧
    Keyed.keys members = Keyed.keys attributes ∧
    List.Forall₂ ReadsAs (members.map Prod.snd) (attributes.map Prod.snd)
  | .array child _ | .record child _ | .lazy child _ => ReadsAs d child
  | .union branches _ => ∃ items, d = .array items ∧ List.Forall₂ ReadsAs items branches
  | .function .. => False
  | .reference target _ => d = .string target

theorem definedBy_withOptional {d : Json} {e : Element} {o : Bool} :
    DefinedBy d (e.withOptional o) ↔ DefinedBy d e := by
  cases e <;> rfl

/-- What is made of what is read. -/
private theorem make_eq_ok_iff {α : Type} {x : Except Malformation α} {make : α → Element}
    {e : Element} :
    (do .ok (make (← x)) : Except Malformation Element) = .ok e ↔ ∃ a, x = .ok a ∧ make a = e := by
  rw [bind_eq_ok_iff]
  simp only [Except.ok.injEq]

/-- What a definition is read as. -/
theorem readDefinition_eq_ok_iff {form : Form} (hform : form ≠ .function) {d : Json} {e : Element} :
    readDefinition form d = .ok e ↔ e.form = form ∧ e.isOptional = false ∧ DefinedBy d e := by
  cases form with
  | function => exact absurd rfl hform
  | literal =>
      rw [readDefinition_eq_readLeaf (by decide), readLeaf, make_eq_ok_iff]
      simp only [Json.asString_eq_ok_iff]
      cases e <;> simp [Element.form, Element.isOptional, DefinedBy, and_comm, eq_comm]
  | simple =>
      rw [readDefinition_eq_readLeaf (by decide), readLeaf, make_eq_ok_iff]
      cases e <;> simp [Element.form, Element.isOptional, DefinedBy, and_comm, eq_comm]
  | enumeration =>
      rw [readDefinition_eq_readLeaf (by decide), readLeaf, make_eq_ok_iff]
      simp only [Json.asStrings_eq_ok_iff]
      cases e <;> simp [Element.form, Element.isOptional, DefinedBy, and_comm, eq_comm]
  | reference =>
      rw [readDefinition_eq_readLeaf (by decide), readLeaf, make_eq_ok_iff]
      · simp only [Json.asString_eq_ok_iff]
        cases e <;> simp [Element.form, Element.isOptional, DefinedBy, and_comm, eq_comm]
      all_goals simp
  | array | record | lazy =>
      rw [readDefinition, make_eq_ok_iff]
      simp only [inner_eq_ok_iff]
      cases e <;> simp [Element.form, Element.isOptional, DefinedBy, ReadsAs, and_comm, eq_comm]
  | union =>
      rw [readDefinition, make_eq_ok_iff]
      simp only [readSequence_eq_ok_iff]
      cases e <;> simp [Element.form, Element.isOptional, DefinedBy, and_comm, eq_comm]
  | object =>
      cases d with
      | object members =>
          rw [readDefinition, make_eq_ok_iff]
          simp only [readAttributes_eq_ok_iff]
          cases e <;> simp [Element.form, Element.isOptional, DefinedBy, and_comm, eq_comm]
      | _ =>
          rw [readDefinition]
          · cases e <;> simp [Element.form, DefinedBy]
          · simp

/-! ## Elements -/

/-- Parts make up an element if they are read as its own parts. -/
def NamedParts.MakeUp (parts : NamedParts) : Element → Prop
  | .function args returns o =>
    Gives (fun d es => readSequence d = .ok es) parts.args [] args ∧
    Gives ReturnsAs parts.returns none returns ∧
    Gives (fun d b => d.asBool = .ok b) parts.mark false o
  | e => (∃ d, parts.definition = some d ∧ DefinedBy d e) ∧
    Gives (fun d b => d.asBool = .ok b) parts.mark false e.isOptional

theorem NamedParts.makeUp_iff {parts : NamedParts} {e : Element} (hform : e.form ≠ .function) :
    parts.MakeUp e ↔ (∃ d, parts.definition = some d ∧ DefinedBy d e) ∧
      Gives (fun d b => d.asBool = .ok b) parts.mark false e.isOptional := by
  cases e with
  | function => exact absurd rfl hform
  | _ => rfl

/-- A draft is finished as a function, or as its definition with its mark. -/
theorem Draft.finish_eq_ok_iff {draft : Draft} {l : Layout} {e : Element} :
    draft.finish l = .ok e ↔ l.surplus = none ∧
      if l.form = .function then .function draft.args draft.returns draft.isOptional = e
      else ∃ body, draft.definition = some body ∧ body.withOptional draft.isOptional = e := by
  obtain ⟨form, members, lacking, surplus⟩ := l
  obtain ⟨definition, args, returns, isOptional⟩ := draft
  cases surplus <;> cases definition <;> cases form <;> simp [finish]

/-- The reader finishes an element where nothing is left over and the parts make it up. -/
theorem exists_finish_iff {l : Layout} {e : Element} (honce : (Keyed.keys l.parts).Nodup) :
    (∃ draft, readParts l.form {} l.parts = .ok draft ∧ draft.finish l = .ok e) ↔
      l.surplus = none ∧ e.form = l.form ∧ (NamedParts.ofMembers l.parts).MakeUp e := by
  simp only [readParts_eq_ok_iff honce, Draft.finish_eq_ok_iff, NamedParts.lead_iff,
    NamedParts.only]
  by_cases hform : l.form = .function
  · simp only [hform, if_true, ne_eq, not_true_eq_false, if_false, gives_none]
    constructor
    · rintro ⟨draft, ⟨-, hargs, hreturns, hmark⟩, hsurplus, rfl⟩
      exact ⟨hsurplus, rfl, hargs, hreturns, hmark⟩
    · rintro ⟨hsurplus, hfunction, hmake⟩
      cases e with
      | function args returns o =>
          exact ⟨⟨none, args, returns, o⟩, ⟨rfl, hmake⟩, hsurplus, rfl⟩
      | _ => cases hfunction
  · simp only [hform, if_false, ne_eq, not_false_eq_true, if_true, gives_none]
    constructor
    · rintro ⟨⟨definition, args, returns, o⟩, ⟨hdefinition, -, -, hmark⟩, hsurplus, body, rfl, rfl⟩
      cases hwritten : (NamedParts.ofMembers l.parts).definition with
      | none =>
          rw [hwritten] at hdefinition
          cases hdefinition
      | some d =>
          rw [hwritten] at hdefinition
          obtain ⟨_, hread, hbody⟩ := hdefinition
          cases hbody
          obtain ⟨hsame, -, hdefined⟩ := (readDefinition_eq_ok_iff hform).1 hread
          have hmarked := (form_withOptional body o).trans hsame
          refine ⟨hsurplus, hmarked,
            (NamedParts.makeUp_iff (hmarked ▸ hform)).2 ⟨⟨d, hwritten, ?_⟩, ?_⟩⟩
          · exact definedBy_withOptional.2 hdefined
          · rwa [isOptional_withOptional]
    · rintro ⟨hsurplus, hsame, hmake⟩
      obtain ⟨⟨d, hwritten, hdefined⟩, hmark⟩ := (NamedParts.makeUp_iff (hsame ▸ hform)).1 hmake
      refine ⟨⟨some (e.withOptional false), [], none, e.isOptional⟩, ⟨?_, rfl, rfl, hmark⟩,
        hsurplus, _, rfl, by rw [withOptional_withOptional, withOptional_isOptional]⟩
      rw [hwritten]
      refine ⟨_, (readDefinition_eq_ok_iff hform).2 ⟨?_, ?_, ?_⟩, rfl⟩
      · rw [form_withOptional, hsame]
      · exact isOptional_withOptional e false
      · exact definedBy_withOptional.2 hdefined

/-- A document is read once it is taken apart and its parts are read. -/
theorem read_eq_ok_iff {standing : Standing} {d : Json} {e : Element} :
    read standing d = .ok e ↔ ∃ l, layout standing d = .ok l ∧
      ∃ draft, readParts l.form {} l.parts = .ok draft ∧ draft.finish l = .ok e := by
  rw [read]
  split
  · next fault hfault => simp [hfault]
  · next l hl =>
      rw [elsewhere_eq_ok_iff, bind_eq_ok_iff]
      simp [hl]

theorem readTag_eq_ok_iff {standing : Standing} (place : TagPlace) {tag : Json} {form : Form} :
    readTag standing place tag = .ok form ↔ chooseForm standing tag = .ok form := by
  rw [readTag]
  cases chooseForm standing tag <;> simp

theorem layout_object_eq_ok_iff {standing : Standing} {members : List (String × Json)}
    {l : Layout} :
    layout standing (.object members) = .ok l ↔ ∃ tag, Keyed.find? "type" members = some tag ∧
      ∃ form, chooseForm standing tag = .ok form ∧
        ⟨form, members, .missingField "definition", none⟩ = l := by
  simp only [← readTag_eq_ok_iff .member]
  rw [layout]
  cases Keyed.find? "type" members with
  | none => simp
  | some tag => cases hform : readTag standing .member tag <;> simp [hform]

theorem layout_array_eq_ok_iff {standing : Standing} {items : List Json} {l : Layout} :
    layout standing (.array items) = .ok l ↔ ∃ tag rest, items = tag :: rest ∧
      ∃ form, chooseForm standing tag = .ok form ∧ layoutOfItems form rest = l := by
  simp only [← readTag_eq_ok_iff .first]
  cases items with
  | nil => simp [layout]
  | cons tag rest =>
      rw [layout]
      cases hform : readTag standing .first tag <;> simp [hform]

/-- An object is read as the element that the tag names and the members make up. -/
theorem read_object_eq_ok_iff {standing : Standing} {members : List (String × Json)} {e : Element}
    (honce : (Keyed.keys members).Nodup) :
    read standing (.object members) = .ok e ↔ ∃ tag, Keyed.find? "type" members = some tag ∧
      chooseForm standing tag = .ok e.form ∧ (NamedParts.ofMembers members).MakeUp e := by
  rw [read_eq_ok_iff]
  simp only [layout_object_eq_ok_iff]
  constructor
  · rintro ⟨l, ⟨tag, htag, form, hchoose, rfl⟩, hfinish⟩
    obtain ⟨-, hform, hmake⟩ := (exists_finish_iff honce).1 hfinish
    exact ⟨tag, htag, hform ▸ hchoose, hmake⟩
  · rintro ⟨tag, htag, hchoose, hmake⟩
    exact ⟨_, ⟨tag, htag, _, hchoose, rfl⟩, (exists_finish_iff honce).2 ⟨rfl, rfl, hmake⟩⟩

/-- The parts that are named by their places stand at those places. -/
theorem ofMembers_zip (form : Form) (items : List Json) :
    NamedParts.ofMembers (form.partNames.zip items) = NamedParts.ofItems form items := by
  cases form <;> rcases items with _ | ⟨a, _ | ⟨b, _ | ⟨c, rest⟩⟩⟩ <;> rfl

theorem nodup_keys_zip (form : Form) (items : List Json) :
    (Keyed.keys (form.partNames.zip items)).Nodup := by
  cases form <;> rcases items with _ | ⟨a, _ | ⟨b, _ | ⟨c, rest⟩⟩⟩ <;>
    simp [Form.partNames, Keyed.keys]

/-- Nothing is left over exactly if there are no more items than parts. -/
theorem surplus_layoutOfItems_iff {form : Form} {items : List Json} :
    (layoutOfItems form items).surplus = none ↔ items.length ≤ form.partNames.length := by
  simp [layoutOfItems]

/-- An array is read as the element that the tag names and the items make up, if there
are no more items than parts. -/
theorem read_array_eq_ok_iff {standing : Standing} {items : List Json} {e : Element} :
    read standing (.array items) = .ok e ↔ ∃ tag rest, items = tag :: rest ∧
      chooseForm standing tag = .ok e.form ∧ rest.length ≤ e.form.partNames.length ∧
      (NamedParts.ofItems e.form rest).MakeUp e := by
  rw [read_eq_ok_iff]
  simp only [layout_array_eq_ok_iff]
  constructor
  · rintro ⟨l, ⟨tag, rest, rfl, form, hchoose, rfl⟩, hfinish⟩
    obtain ⟨hsurplus, hform, hmake⟩ := (exists_finish_iff (nodup_keys_zip form rest)).1 hfinish
    obtain rfl : e.form = form := hform
    exact ⟨tag, rest, rfl, hchoose, surplus_layoutOfItems_iff.1 hsurplus,
      ofMembers_zip e.form rest ▸ hmake⟩
  · rintro ⟨tag, rest, rfl, hchoose, hroom, hmake⟩
    exact ⟨_, ⟨tag, rest, rfl, _, hchoose, rfl⟩,
      (exists_finish_iff (nodup_keys_zip e.form rest)).2
        ⟨surplus_layoutOfItems_iff.2 hroom, rfl, (ofMembers_zip e.form rest).symm ▸ hmake⟩⟩

end Element
end SchemaSets
