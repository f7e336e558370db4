import SchemaSets.Proofs.Denotation

/-!
# Where malformed elements are said to be

The error for a document that is no element has a path.  It is meant for the element
that is malformed, and a document may have elements inside elements to any depth.  A
route leads from a document to what stands inside it, and is written as a path is: keys
after points, positions between brackets, and a point by itself for the document as a
whole.

The path follows the tag of the outermost element and nothing else.  So it tells where
the malformed element is if that is the outermost one, and if it is any other the path
names the document as a whole (`malformed_path_tells_root`).

## Main results

* `read_eq_error_path` — the path of a fault is its tag, or the document as a whole.
* `ElementAt.follow?_eq` — an element inside a document stands where its route leads.
* `malformed_path_tells_root` — the path tells the malformed element if and only if
  that is the outermost one.
-/

namespace SchemaSets

/-! ## Routes -/

namespace Json

/-- A step into a document. -/
inductive Step
  | member (key : String)
  | item (position : Nat)
deriving DecidableEq, Repr

/-- A way into a document. -/
abbrev Route := List Step

/-- What is one step into a document. -/
def Step.follow? : Step → Json → Option Json
  | .member key, .object members => Keyed.find? key members
  | .item position, .array items => items[position]?
  | _, _ => none

/-- The document with something else one step into it. -/
def Step.put (w : Json) : Step → Json → Json
  | .member key, .object members => .object (Keyed.insert key w members)
  | .item position, .array items => .array (items.set position w)
  | _, d => d

theorem Step.follow?_put {step : Step} {d inner : Json} (h : step.follow? d = some inner)
    (w : Json) : step.follow? (step.put w d) = some w := by
  cases step with
  | member key =>
      cases d with
      | object members => rw [put, follow?, Keyed.find?_insert, if_pos rfl]
      | _ => cases h
  | item position =>
      cases d with
      | array items =>
          obtain ⟨hposition, -⟩ := List.getElem?_eq_some_iff.1 h
          exact List.getElem?_set_self hposition
      | _ => cases h

/-- The words for a step, the first or a later one. -/
def Step.text (isFirst : Bool) : Step → String
  | .member key => if isFirst then key else "." ++ key
  | .item position => "[" ++ toString position ++ "]"

namespace Route

/-- What a route leads to. -/
def follow? : Route → Json → Option Json
  | [], d => some d
  | step :: rest, d => (step.follow? d).bind (follow? rest)

/-- The document with something else where a route leads. -/
def put (w : Json) : Route → Json → Json
  | [], _ => w
  | step :: rest, d =>
    match step.follow? d with
    | some inner => step.put (put w rest inner) d
    | none => d

/-- The words for a route. -/
def text : Route → String
  | [] => "."
  | step :: rest => step.text true ++ String.join (rest.map (Step.text false))

theorem follow?_append (p q : Route) (d : Json) :
    follow? (p ++ q) d = (follow? p d).bind (follow? q) := by
  induction p generalizing d with
  | nil => rfl
  | cons step rest ih =>
      rw [List.cons_append, follow?, follow?, Option.bind_assoc]
      exact congrArg _ (funext ih)

/-- What is put where a route leads is where it leads then. -/
theorem follow?_put {p : Route} {d x : Json} (h : follow? p d = some x) (w : Json) :
    follow? p (put w p d) = some w := by
  induction p generalizing d with
  | nil => rfl
  | cons step rest ih =>
      obtain ⟨inner, hstep, hrest⟩ := Option.bind_eq_some_iff.1 h
      rw [put, hstep, follow?, Step.follow?_put hstep, Option.bind_some]
      exact ih hrest

/-- Only the route to the document as a whole is written as a point, unless a key
begins with one. -/
theorem text_cons_ne {step : Step} {rest : Route}
    (h : (step.text true).toList.head?.any (· ≠ '.')) : text (step :: rest) ≠ "." := by
  intro hpoint
  cases hfirst : (step.text true).toList with
  | nil => simp [hfirst] at h
  | cons c cs =>
      have hc : c = '.' := by
        have hlist := congrArg String.toList hpoint
        rw [text, String.toList_append, hfirst, List.cons_append] at hlist
        exact (List.cons.inj hlist).1
      simp [hfirst, hc] at h

end Route

end Json

namespace Element

/-! ## Elements inside elements -/

/-- A document has a part: its tag names a form, and the part is under its key or at its
position. -/
inductive HasPart (standing : Standing) : Json → Form → String → Json.Step → Json → Prop
  | member {members : List (String × Json)} {tag : Json} {form : Form} {key : String} {part : Json}
      (found : Keyed.find? "type" members = some tag)
      (names : Spelling.asRead.tag standing tag form) (listed : key ∈ form.partNames)
      (written : Keyed.find? key members = some part) :
      HasPart standing (.object members) form key (.member key) part
  | item {tag : Json} {items : List Json} {form : Form} {key : String} {position : Nat}
      {part : Json} (names : Spelling.asRead.tag standing tag form)
      (listed : form.partNames[position]? = some key) (written : items[position]? = some part) :
      HasPart standing (.array (tag :: items)) form key (.item (position + 1)) part

/-- A part of a form holds an element, at the end of a route into the part. -/
inductive Holds : Form → String → Json → Json.Route → Json → Prop
  | only {form : Form} {d : Json} (one : form ∈ [Form.array, .record, .lazy]) :
      Holds form "definition" d [] d
  | member {members : List (String × Json)} {name : String} {d : Json}
      (found : Keyed.find? name members = some d) :
      Holds .object "definition" (.object members) [.member name] d
  | branch {items : List Json} {position : Nat} {d : Json} (found : items[position]? = some d) :
      Holds .union "definition" (.array items) [.item position] d
  | argument {items : List Json} {position : Nat} {d : Json} (found : items[position]? = some d) :
      Holds .function "args" (.array items) [.item position] d
  | result {d : Json} (something : d ≠ .null) : Holds .function "returns" d [] d

/-- A route leads to an element: to the outermost one, or through a part of it to one that
stands inside. -/
inductive ElementAt : Standing → Json → Json.Route → Json → Prop
  | root {standing : Standing} {d : Json} : ElementAt standing d [] d
  | inner {standing : Standing} {d part child node : Json} {form : Form} {key : String}
      {step : Json.Step} {way rest : Json.Route} (has : HasPart standing d form key step part)
      (holds : Holds form key part way child) (within : ElementAt .inside child rest node) :
      ElementAt standing d (step :: (way ++ rest)) node

variable {standing : Standing} {d part child node : Json} {form : Form} {key : String}
  {step : Json.Step} {p q : Json.Route}

theorem HasPart.follow?_eq (h : HasPart standing d form key step part) :
    step.follow? d = some part := by
  cases h with
  | member _ _ _ written => exact written
  | item _ _ written => exact written

theorem Holds.follow?_eq {way : Json.Route} (h : Holds form key part way child) :
    way.follow? part = some child := by
  cases h with
  | only | result => rfl
  | member found | branch found | argument found =>
      simp [Json.Route.follow?, Json.Step.follow?, found]

/-- An element inside a document stands where its route leads. -/
theorem ElementAt.follow?_eq (h : ElementAt standing d p node) : p.follow? d = some node := by
  induction h with
  | root => rfl
  | inner has holds _ ih =>
      rw [Json.Route.follow?, has.follow?_eq, Option.bind_some, Json.Route.follow?_append,
        holds.follow?_eq, Option.bind_some, ih]

/-- Something else in place of an element stands where the route of the element leads. -/
theorem ElementAt.follow?_put (h : ElementAt standing d p node) (w : Json) :
    p.follow? (p.put w d) = some w :=
  Json.Route.follow?_put h.follow?_eq w

/-- A part of an element is not said to be the document as a whole. -/
theorem HasPart.text_ne (h : HasPart standing d form key step part) (rest : Json.Route) :
    Json.Route.text (step :: rest) ≠ "." := by
  refine Json.Route.text_cons_ne ?_
  cases h with
  | member _ _ listed _ =>
      have hpoint : ∀ form : Form, ∀ key ∈ form.partNames,
          ((Json.Step.member key).text true).toList.head?.any (· ≠ '.') := by
        intro form
        cases form <;> decide
      exact hpoint _ _ listed
  | item => simp [Json.Step.text]

/-! ## Tags -/

/-- A route leads to the tag of an outermost element, and it names no form. -/
inductive TagAtFault : Json → Json.Route → Prop
  | member {members : List (String × Json)} {tag : Json}
      (found : Keyed.find? "type" members = some tag)
      (unnamed : ∀ form, ¬Spelling.asRead.tag .outermost tag form) :
      TagAtFault (.object members) [.member "type"]
  | first {tag : Json} {items : List Json}
      (unnamed : ∀ form, ¬Spelling.asRead.tag .outermost tag form) :
      TagAtFault (.array (tag :: items)) [.item 0]

theorem TagAtFault.exists_follow? (h : TagAtFault d q) : ∃ tag, q.follow? d = some tag := by
  cases h with
  | member found => exact ⟨_, by simpa [Json.Route.follow?, Json.Step.follow?] using found⟩
  | first => exact ⟨_, rfl⟩

/-- A document has its tag in one place. -/
theorem TagAtFault.unique {other : Json.Route} (h : TagAtFault d q) (hother : TagAtFault d other) :
    q = other := by
  cases h <;> cases hother <;> rfl

/-- An element that has parts has a tag that names its form. -/
theorem HasPart.not_tagAtFault (h : HasPart .outermost d form key step part) :
    ¬TagAtFault d q := by
  intro hfault
  cases h with
  | member found names _ _ =>
      cases hfault with
      | member found' unnamed =>
          rw [found] at found'
          cases found'
          exact unnamed _ names
  | item names _ _ =>
      cases hfault with
      | first unnamed => exact unnamed _ names

/-- A tag that is refused names no form, and the fault is at its place. -/
theorem readTag_eq_error {place : TagPlace} {tag : Json} {fault : Fault}
    (h : readTag standing place tag = .error fault) :
    fault.tag = some place ∧ ∀ form, ¬Spelling.asRead.tag standing tag form := by
  rw [readTag] at h
  cases hchoose : chooseForm standing tag with
  | ok form => simp [hchoose] at h
  | error malformation =>
      rw [hchoose] at h
      cases h
      refine ⟨rfl, fun form names => ?_⟩
      rw [chooseForm_eq_ok_iff.2 names] at hchoose
      cases hchoose

theorem elsewhere_eq_error {α : Type} {x : Except Malformation α} {fault : Fault}
    (h : elsewhere x = .error fault) : fault.tag = none := by
  cases x with
  | ok a => cases h
  | error malformation =>
      cases h
      rfl

/-- A document that cannot be taken apart has its fault at the tag, if the tag names no
form, and else elsewhere. -/
theorem layout_eq_error_path {fault : Fault} (h : layout .outermost d = .error fault) :
    (∃ q, TagAtFault d q ∧ fault.path = q.text) ∨
      (∀ q, ¬TagAtFault d q) ∧ fault.path = "." := by
  cases d with
  | object members =>
      simp only [layout] at h
      cases hfound : Keyed.find? "type" members with
      | none =>
          simp only [hfound] at h
          cases h
          refine .inr ⟨fun q hfault => ?_, rfl⟩
          cases hfault with
          | member found => simp [hfound] at found
      | some tag =>
          simp only [hfound] at h
          cases htag : readTag .outermost .member tag with
          | ok form => simp [htag] at h
          | error refused =>
              simp only [htag] at h
              cases h
              obtain ⟨hplace, hunnamed⟩ := readTag_eq_error htag
              exact .inl ⟨_, .member hfound hunnamed, by rw [Fault.path, hplace]; rfl⟩
  | array items =>
      cases items with
      | nil =>
          cases h
          exact .inr ⟨by rintro _ ⟨⟩, rfl⟩
      | cons tag items =>
          simp only [layout] at h
          cases htag : readTag .outermost .first tag with
          | ok form => simp [htag] at h
          | error refused =>
              simp only [htag] at h
              cases h
              obtain ⟨hplace, hunnamed⟩ := readTag_eq_error htag
              exact .inl ⟨_, .first hunnamed, by rw [Fault.path, hplace]; rfl⟩
  | _ =>
      cases h
      exact .inr ⟨by rintro _ ⟨⟩, rfl⟩

/-- A document that can be taken apart has a tag that names a form. -/
theorem not_tagAtFault_of_layout_eq_ok {l : Layout} (h : layout .outermost d = .ok l) :
    ¬TagAtFault d q := by
  intro hfault
  cases hfault with
  | member found unnamed =>
      obtain ⟨tag, hfound, form, hform, -⟩ := layout_object_eq_ok_iff.1 h
      rw [found] at hfound
      cases hfound
      exact unnamed form (chooseForm_eq_ok_iff.1 hform)
  | first unnamed =>
      obtain ⟨tag, items, hitems, form, hform, -⟩ := layout_array_eq_ok_iff.1 h
      cases hitems
      exact unnamed form (chooseForm_eq_ok_iff.1 hform)

/-- The path of a fault is the place of the tag, if that is at fault, and else the document
as a whole. -/
theorem read_eq_error_path {fault : Fault} (h : read .outermost d = .error fault) :
    (∃ q, TagAtFault d q ∧ fault.path = q.text) ∨
      (∀ q, ¬TagAtFault d q) ∧ fault.path = "." := by
  rw [read] at h
  split at h
  · rename_i hlayout
    cases h
    exact layout_eq_error_path hlayout
  · rename_i hlayout
    refine .inr ⟨fun q => not_tagAtFault_of_layout_eq_ok hlayout, ?_⟩
    rw [Fault.path, elsewhere_eq_error h]

/-! ## Sole faults -/

/-- With an element in place of what a route leads to, the document is accepted. -/
def Mends (name : String) (d : Json) (p : Json.Route) : Prop :=
  ∃ w e mended, Denotes .asRead .inside w e ∧ ofJson name (p.put w d) = .ok mended

/-- One element by itself makes a document malformed: an element in its place mends the
document, and no other place does but those around it. -/
structure SoleFault (name : String) (d : Json) (p : Json.Route) : Prop where
  node : ∃ x, ElementAt .outermost d p x
  mends : Mends name d p
  alone : ∀ q, (∃ x, ElementAt .outermost d q x) → Mends name d q → q <+: p

/-- A document has at most one sole fault. -/
theorem SoleFault.unique {name : String} (hp : SoleFault name d p) (hq : SoleFault name d q) :
    p = q := by
  have hpq : p <+: q := hq.alone p hp.node hp.mends
  exact hpq.eq_of_length_le (hp.alone q hq.node hq.mends).length_le

/-- A path names what a route leads to in a document, or something inside it. -/
def Locates (d : Json) (p : Json.Route) (path : String) : Prop :=
  ∃ q x, Json.Route.follow? (p ++ q) d = some x ∧ Json.Route.text (p ++ q) = path

/-- Of an element inside another, and of what is inside it, the path is not the document as
a whole. -/
theorem ElementAt.text_append_ne (h : ElementAt standing d p node) (hp : p ≠ []) :
    Json.Route.text (p ++ q) ≠ "." := by
  cases h with
  | root => exact absurd rfl hp
  | inner has => exact has.text_ne _

/-- Where there is an element inside another, the outermost tag is not at fault. -/
theorem ElementAt.not_tagAtFault (h : ElementAt .outermost d p node) (hp : p ≠ []) :
    ¬TagAtFault d q := by
  cases h with
  | root => exact absurd rfl hp
  | inner has => exact has.not_tagAtFault

end Element

open Element

/-- Where one element by itself makes a document malformed, the path of the error locates
this element if and only if it is the outermost one.  The path is the tag of the outermost
element where that is at fault, and the document as a whole otherwise, however deep inside
the malformed element stands. -/
theorem malformed_path_tells_root {name path detail : String} {d : Json} {p : Json.Route}
    (hrejected : Element.ofJson name d = .error (.malformedElement name path detail))
    (hsole : SoleFault name d p) :
    (Locates d p path ↔ p = []) ∧ (∀ q, TagAtFault d q → path = q.text) ∧
      ((∀ q, ¬TagAtFault d q) → path = ".") := by
  obtain ⟨fault, hread, rfl⟩ : ∃ fault, read .outermost d = .error fault ∧ fault.path = path := by
    rw [Element.ofJson] at hrejected
    split at hrejected
    · cases hrejected
    · rename_i fault hread
      exact ⟨fault, hread, by cases hrejected; rfl⟩
  obtain ⟨x, hnode⟩ := hsole.node
  have hpath := read_eq_error_path hread
  refine ⟨⟨?_, ?_⟩, ?_, ?_⟩
  · rintro ⟨q, _, -, htext⟩
    by_contra hp
    rcases hpath with ⟨tag, hfault, -⟩ | ⟨-, hwhole⟩
    · exact hnode.not_tagAtFault hp hfault
    · exact hnode.text_append_ne hp (htext.trans hwhole)
  · rintro rfl
    rcases hpath with ⟨q, hfault, htext⟩ | ⟨-, hwhole⟩
    · obtain ⟨tag, hfound⟩ := hfault.exists_follow?
      exact ⟨q, tag, hfound, htext.symm⟩
    · exact ⟨[], d, rfl, hwhole.symm⟩
  · intro q hfault
    rcases hpath with ⟨other, hother, htext⟩ | ⟨hnone, -⟩
    · rw [htext, hother.unique hfault]
    · exact absurd hfault (hnone q)
  · intro hnone
    rcases hpath with ⟨q, hfault, -⟩ | ⟨-, hwhole⟩
    · exact absurd hfault (hnone q)
    · exact hwhole

/-! ## Two documents of no form -/

/-- A document whose tag is the name of no form. -/
def formless : Json := .object [("type", .string "nope")]

/-- What is wrong with that tag. -/
def unknownForm : Malformation := .unknownVariant "nope" (Form.choices.map (·.1))

/-- A document of any value. -/
def anything : Json := .object [("definition", .string "any"), ("type", .string "simpleType")]

theorem denotes_anything {standing : Standing} :
    Denotes .asRead standing anything (.simple .any false) :=
  .object rfl (.inl rfl) (.definition rfl (.simple (.inl (.inl rfl))) rfl)

theorem ordered_anything : anything.Ordered := by
  simp only [anything, Json.Ordered, Json.OrderedMembers, Keyed.Sorted]
  decide

theorem read_formless (standing : Standing) :
    Element.read standing formless = .error ⟨some .member, unknownForm⟩ := by
  rw [Element.read]
  rfl

/-- No element is inside a document of no form. -/
theorem eq_nil_of_elementAt_formless {standing : Standing} {p : Json.Route} {x : Json}
    (h : ElementAt standing formless p x) : p = [] := by
  cases h with
  | root => rfl
  | inner has =>
      obtain ⟨found, names, -, -⟩ := has
      cases found
      rcases names with hname | ⟨-, position, hposition, -⟩
      · have hother : ∀ form : Form, Json.string "nope" ≠ .string form.tag := by
          intro form
          cases form <;> simp [Form.tag]
        exact absurd hname (hother _)
      · cases hposition

/-- An outermost element of no form is located, by its tag. -/
theorem malformed_path_tells_root_formless :
    Element.ofJson "E" formless = .error (.malformedElement "E" "type" unknownForm.text) ∧
      SoleFault "E" formless [] ∧
      (Locates formless [] "type" ↔ ([] : Json.Route) = []) ∧
      (∀ q, TagAtFault formless q → "type" = q.text) ∧
      ((∀ q, ¬TagAtFault formless q) → "type" = ".") := by
  have hrejected : Element.ofJson "E" formless =
      .error (.malformedElement "E" "type" unknownForm.text) := by
    rw [Element.ofJson, read_formless]
    rfl
  have hsole : SoleFault "E" formless [] :=
    { node := ⟨formless, .root⟩
      mends := ⟨anything, _, _, denotes_anything, (ofJson_eq_ok_iff ordered_anything).2
        denotes_anything⟩
      alone := fun q hnode _ => eq_nil_of_elementAt_formless hnode.choose_spec ▸ List.nil_prefix }
  exact ⟨hrejected, hsole, malformed_path_tells_root hrejected hsole⟩

/-- A list whose items are of no form. -/
def formlessList : Json := .object [("definition", formless), ("type", .string "array")]

theorem read_formlessList : Element.read .outermost formlessList = .error ⟨none, unknownForm⟩ := by
  have hparts : readParts .array {} [("definition", formless), ("type", .string "array")] =
      .error unknownForm := by
    rw [readParts, if_neg (by decide), if_neg (by decide), if_pos rfl, readDefinition,
      read_formless]
    rfl
  rw [Element.read]
  split
  · rename_i hlayout
    cases hlayout
  · rename_i hlayout
    cases hlayout
    rw [hparts]
    rfl

/-- Only the items are inside the list. -/
theorem eq_of_elementAt_formlessList {p : Json.Route} {x : Json}
    (h : ElementAt .outermost formlessList p x) : p = [] ∨ p = [.member "definition"] := by
  cases h with
  | root => exact .inl rfl
  | inner has holds within =>
      obtain ⟨found, names, -, written⟩ := has
      cases found
      cases holds with
      | only =>
          cases written
          rw [eq_nil_of_elementAt_formless within]
          exact .inr rfl
      | argument | result => cases written
      | member | branch => exact absurd names (by simp [Spelling.asRead, Form.tag])

/-- The items of a list make it malformed by themselves, and the path is the list. -/
theorem malformed_path_misses_item :
    Element.ofJson "E" formlessList = .error (.malformedElement "E" "." unknownForm.text) ∧
      SoleFault "E" formlessList [.member "definition"] ∧
      ¬Locates formlessList [.member "definition"] "." := by
  have htag : Spelling.asRead.tag .outermost (.string "array") .array := .inl rfl
  have hitem : ElementAt .outermost formlessList [.member "definition"] formless :=
    .inner (.member rfl htag (by decide) rfl) (.only (by decide)) .root
  refine ⟨?_, ⟨⟨formless, hitem⟩, ?_, ?_⟩, ?_⟩
  · rw [Element.ofJson, read_formlessList]
    rfl
  · refine ⟨anything, _, .array (.simple .any false) false, denotes_anything,
      (ofJson_eq_ok_iff ?_).2 (.object rfl htag (.definition rfl (.array denotes_anything) rfl))⟩
    have hkeys : "definition" < "type" := by decide
    exact ⟨List.pairwise_pair.2 hkeys, ordered_anything, trivial, trivial⟩
  · rintro q ⟨x, hx⟩ -
    rcases eq_of_elementAt_formlessList hx with rfl | rfl
    · exact List.nil_prefix
    · exact List.prefix_rfl
  · rintro ⟨q, x, -, htext⟩
    exact hitem.text_append_ne (by simp) htext

end SchemaSets
