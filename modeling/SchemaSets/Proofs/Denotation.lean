import SchemaSets.Proofs.Drafts
import SchemaSets.Proofs.Mappings
import SchemaSets.Proofs.Nodes
import SchemaSets.Proofs.Ordered

/-!
# Which documents denote which elements

A grammar of documents, read off from how elements are written and not from how they
are read: `Denotes` says that a document denotes an element, as an object or as an
array, and `Presents` what the parts of each form are.  Elements denote by what they are
made of, so the grammar is a relation by recursion on the element.

Two things can be spelled in more ways than one, the tag and a primitive.  They are
kept apart in a `Spelling`.  The reader takes more than names (`Spelling.asRead`): an
element that stands inside another may give the position of its form in the list of
forms, and a primitive may be the only key of an object with another empty object
under it.  The grammar of names alone is a different one (`accepts_more_than_names`).

## Main results

* `reads_iff_denotes` — a document is read as the element that it denotes.
* `accepts_exactly_the_grammar` — elements and sets are accepted exactly if the
  grammar has them, and what else there is is malformed.
-/

namespace SchemaSets

namespace Element

/-! ## Grammar -/

/-- How tags and primitives are spelled. -/
structure Spelling where
  tag : Standing → Json → Form → Prop
  kind : Json → SimpleKind → Prop

/-- A tag is the name of a form; a primitive is its name, or an object with nothing but
null under that name. -/
def Spelling.byName : Spelling where
  tag _ d form := d = .string form.tag
  kind d kind := d = .string kind.word ∨ d = .object [(kind.word, .null)]

/-- A tag inside an element may also be the position of the form, and a primitive may
also be an object with nothing but an empty object under its name. -/
def Spelling.asRead : Spelling where
  tag standing d form := d = .string form.tag ∨
    standing = .inside ∧ ∃ position : Nat, d = .int position ∧
      Form.choices[position]? = some (form.tag, form)
  kind d kind := Spelling.byName.kind d kind ∨ d = .object [(kind.word, .object [])]

/-- The mark that is written; an element is not optional if nothing is said. -/
def NamedParts.Marked (parts : NamedParts) (o : Bool) : Prop :=
  parts.mark.getD (.bool false) = .bool o

mutual
/-- A document denotes an element. -/
inductive Denotes (spelling : Spelling) : Standing → Json → Element → Prop
  | object {standing : Standing} {members : List (String × Json)} {tag : Json} {e : Element}
      (found : Keyed.find? "type" members = some tag) (form : spelling.tag standing tag e.form)
      (parts : Presents spelling (.ofMembers members) e) :
      Denotes spelling standing (.object members) e
  | array {standing : Standing} {tag : Json} {items : List Json} {e : Element}
      (form : spelling.tag standing tag e.form) (room : items.length ≤ e.form.partNames.length)
      (parts : Presents spelling (.ofItems e.form items) e) :
      Denotes spelling standing (.array (tag :: items)) e
/-- Parts present an element: a function by its signature, any other by a definition. -/
inductive Presents (spelling : Spelling) : NamedParts → Element → Prop
  | definition {parts : NamedParts} {d : Json} {e : Element} (written : parts.definition = some d)
      (defines : Defines spelling d e) (mark : parts.Marked e.isOptional) :
      Presents spelling parts e
  | procedure {parts : NamedParts} {items : List Json} {args : List Element} {o : Bool}
      (arguments : parts.args.getD (.array []) = .array items)
      (each : List.Forall₂ (Denotes spelling .inside) items args)
      (nothing : parts.returns.getD .null = .null) (mark : parts.Marked o) :
      Presents spelling parts (.function args none o)
  | function {parts : NamedParts} {items : List Json} {d : Json} {args : List Element}
      {returns : Element} {o : Bool} (arguments : parts.args.getD (.array []) = .array items)
      (each : List.Forall₂ (Denotes spelling .inside) items args)
      (written : parts.returns = some d) (result : Denotes spelling .inside d returns)
      (mark : parts.Marked o) : Presents spelling parts (.function args (some returns) o)
/-- A document is the definition of an element, whatever the mark of the element. -/
inductive Defines (spelling : Spelling) : Json → Element → Prop
  | literal {text : String} {o : Bool} : Defines spelling (.string text) (.literal text o)
  | simple {d : Json} {kind : SimpleKind} {o : Bool} (spelled : spelling.kind d kind) :
      Defines spelling d (.simple kind o)
  | enumeration {values : List String} {o : Bool} :
      Defines spelling (.array (values.map .string)) (.enumeration values o)
  | object {members : List (String × Json)} {attributes : List (String × Element)} {o : Bool}
      (names : Keyed.keys members = Keyed.keys attributes)
      (each : List.Forall₂ (Denotes spelling .inside) (members.map Prod.snd)
        (attributes.map Prod.snd)) :
      Defines spelling (.object members) (.object attributes o)
  | array {d : Json} {item : Element} {o : Bool} (each : Denotes spelling .inside d item) :
      Defines spelling d (.array item o)
  | record {d : Json} {value : Element} {o : Bool} (each : Denotes spelling .inside d value) :
      Defines spelling d (.record value o)
  | union {items : List Json} {branches : List Element} {o : Bool}
      (each : List.Forall₂ (Denotes spelling .inside) items branches) :
      Defines spelling (.array items) (.union branches o)
  | lazy {d : Json} {child : Element} {o : Bool} (later : Denotes spelling .inside d child) :
      Defines spelling d (.lazy child o)
  | reference {target : String} {o : Bool} : Defines spelling (.string target) (.reference target o)
end

/-! ## Spellings -/

/-- A tag is taken for the form that it spells. -/
theorem chooseForm_eq_ok_iff {standing : Standing} {tag : Json} {form : Form} :
    chooseForm standing tag = .ok form ↔ Spelling.asRead.tag standing tag form := by
  have honce : (Form.choices.map (·.1)).Nodup := by decide
  have hname : ∀ name, (name, form) ∈ Form.choices ↔ name = form.tag := by
    intro name
    cases form <;> simp [Form.choices, Form.tag]
  have hposition : ∀ position : Nat, Json.chooseAt Form.choices position = .ok form ↔
      Form.choices[position]? = some (form.tag, form) := by
    intro position
    rw [Json.chooseAt]
    cases hchoice : Form.choices[position]? with
    | none => simp
    | some choice =>
        have htag : choice.1 = choice.2.tag := by
          obtain ⟨_, -, rfl⟩ := List.mem_map.1 (List.mem_of_getElem? hchoice)
          rfl
        simp only [Except.ok.injEq, Option.some.injEq, Prod.ext_iff, htag]
        exact ⟨fun hsame => ⟨hsame ▸ rfl, hsame⟩, And.right⟩
  rw [Spelling.asRead]
  fun_cases chooseForm standing tag with
  | case1 name =>
      rw [Json.choose_eq_ok_iff honce, hname]
      simp [Json.int]
  | case2 n h =>
      obtain ⟨rfl, hnatural⟩ := h
      obtain ⟨position, rfl⟩ := Int.eq_ofNat_of_zero_le hnatural
      simp only [Int.toNat_natCast, hposition, reduceCtorEq, Json.int, Json.number.injEq,
        Json.Number.integer.injEq, Int.natCast_inj, exists_eq_left', true_and, false_or]
  | case3 n h =>
      have hnegative : standing = .inside → ∀ position : Nat, n ≠ position :=
        fun hinside position hn => h ⟨hinside, hn ▸ Int.natCast_nonneg position⟩
      simp only [Json.int, reduceCtorEq, false_or, false_iff]
      rintro ⟨hinside, position, hn, -⟩
      cases hn
      exact hnegative hinside position rfl
  | case4 _ hstring hinteger =>
      simp only [reduceCtorEq, false_iff]
      rintro (hname | ⟨-, position, hposition, -⟩)
      · exact hstring _ hname
      · exact hinteger _ hposition

/-- A primitive is taken for the one that it spells. -/
theorem asChoice_eq_ok_iff_kind {d : Json} {kind : SimpleKind} :
    Json.asChoice SimpleKind.choices Json.isEmpty d = .ok kind ↔ Spelling.asRead.kind d kind := by
  have honce : (SimpleKind.choices.map (·.1)).Nodup := by decide
  have hname : ∀ name, (name, kind) ∈ SimpleKind.choices ↔ name = kind.word := by
    intro name
    cases kind <;> simp [SimpleKind.choices, SimpleKind.word]
  rw [Json.asChoice_eq_ok_iff]
  simp only [Json.choose_eq_ok_iff honce, hname, Json.isEmpty_iff, exists_eq_left]
  simp only [Spelling.asRead, Spelling.byName, or_assoc]
  constructor
  · rintro (hword | ⟨value, hvalue, rfl | rfl⟩)
    · exact .inl hword
    · exact .inr (.inl hvalue)
    · exact .inr (.inr hvalue)
  · rintro (hword | hnull | hempty)
    · exact .inl hword
    · exact .inr ⟨_, hnull, .inl rfl⟩
    · exact .inr ⟨_, hempty, .inr rfl⟩

theorem gives_mark_iff {parts : NamedParts} {o : Bool} :
    Gives (fun d b => d.asBool = .ok b) parts.mark false o ↔ parts.Marked o := by
  rw [NamedParts.Marked]
  cases parts.mark with
  | none => simp [eq_comm]
  | some d => simp [Json.asBool_eq_ok_iff]

theorem gives_args_iff {parts : NamedParts} {args : List Element} :
    Gives (fun d es => readSequence d = .ok es) parts.args [] args ↔
      ∃ items, parts.args.getD (.array []) = .array items ∧ List.Forall₂ ReadsAs items args := by
  cases parts.args <;> simp [readSequence_eq_ok_iff]

theorem gives_returns_iff {parts : NamedParts} {returns : Option Element} :
    Gives ReturnsAs parts.returns none returns ↔
      match returns with
      | none => parts.returns.getD .null = .null
      | some r => ∃ d, parts.returns = some d ∧ ReadsAs d r := by
  cases parts.returns <;> cases returns <;> simp [ReturnsAs]

/-! ## Reading -/

/-- The documents of parts are in key order. -/
structure NamedParts.Ordered (parts : NamedParts) : Prop where
  definition : ∀ d, parts.definition = some d → d.Ordered
  args : ∀ d, parts.args = some d → d.Ordered
  returns : ∀ d, parts.returns = some d → d.Ordered

theorem NamedParts.ordered_ofItems {form : Form} {items : List Json} (h : Json.OrderedItems items) :
    (ofItems form items).Ordered := by
  have hitem : ∀ {position : Nat} d, items[position]? = some d → d.Ordered :=
    fun d hd => Json.orderedItems_iff.1 h d (List.mem_of_getElem? hd)
  rw [ofItems]
  split
  · exact ⟨nofun, hitem, hitem⟩
  · exact ⟨hitem, nofun, nofun⟩

/-- Where it stands inside another, an element is read from the documents that denote
it. -/
def ReadFromDenoting (e : Element) : Prop :=
  ∀ d : Json, d.Ordered → (ReadsAs d e ↔ Denotes .asRead .inside d e)

/-- Where an element is made up by the parts that present it, it is read from the documents
that denote it. -/
theorem reads_iff_denotes_of_makeUp_iff {e : Element}
    (h : ∀ parts : NamedParts, parts.Ordered → (parts.MakeUp e ↔ Presents .asRead parts e))
    {standing : Standing} {d : Json} (hd : d.Ordered) :
    read standing d = .ok e ↔ Denotes .asRead standing d e := by
  cases d with
  | object members =>
      obtain ⟨hsorted, hmembers⟩ := hd
      rw [Json.orderedMembers_iff] at hmembers
      have hfound : ∀ key d, Keyed.find? key members = some d → d.Ordered :=
        fun key d hd => hmembers _ (Keyed.mem_of_find? hd)
      have hparts : (NamedParts.ofMembers members).Ordered := ⟨hfound _, hfound _, hfound _⟩
      rw [read_object_eq_ok_iff (Keyed.nodup_keys hsorted)]
      simp only [chooseForm_eq_ok_iff, h _ hparts]
      constructor
      · rintro ⟨tag, hfound, hform, hpresents⟩
        exact .object hfound hform hpresents
      · rintro (⟨hfound, hform, hpresents⟩ | _)
        exact ⟨_, hfound, hform, hpresents⟩
  | array items =>
      rw [read_array_eq_ok_iff]
      constructor
      · rintro ⟨tag, rest, rfl, hchoose, hroom, hmake⟩
        exact .array (chooseForm_eq_ok_iff.1 hchoose) hroom
          ((h _ (NamedParts.ordered_ofItems hd.2)).1 hmake)
      · rintro (_ | ⟨hform, hroom, hpresents⟩)
        exact ⟨_, _, rfl, chooseForm_eq_ok_iff.2 hform, hroom,
          (h _ (NamedParts.ordered_ofItems hd.2)).2 hpresents⟩
  | _ =>
      rw [read_eq_ok_iff]
      constructor
      · rintro ⟨l, hlayout, -⟩
        cases hlayout
      · rintro ⟨⟩

/-- Documents are read one by one as the elements that they denote. -/
theorem forall₂_readsAs_iff {items : List Json} {es : List Element}
    (hitems : ∀ item ∈ items, item.Ordered) (h : ∀ e ∈ es, ReadFromDenoting e) :
    List.Forall₂ ReadsAs items es ↔ List.Forall₂ (Denotes .asRead .inside) items es := by
  induction items generalizing es with
  | nil => cases es <;> simp
  | cons item rest ih =>
      cases es with
      | nil => simp
      | cons e es =>
          rw [List.forall_mem_cons] at hitems h
          rw [List.forall₂_cons, List.forall₂_cons, h.1 item hitems.1, ih hitems.2 h.2]

/-- An element is made up by the parts that present it, if its definition is read from the
documents that define it. -/
theorem makeUp_iff_presents_of_definedBy_iff {e : Element} (hform : e.form ≠ .function)
    (h : ∀ d : Json, d.Ordered → (DefinedBy d e ↔ Defines .asRead d e)) (parts : NamedParts)
    (hparts : parts.Ordered) : parts.MakeUp e ↔ Presents .asRead parts e := by
  rw [NamedParts.makeUp_iff hform, gives_mark_iff]
  constructor
  · rintro ⟨⟨d, hwritten, hdefined⟩, hmark⟩
    exact .definition hwritten ((h d (hparts.definition d hwritten)).1 hdefined) hmark
  · intro hpresents
    cases hpresents with
    | definition hwritten hdefines hmark =>
        exact ⟨⟨_, hwritten, (h _ (hparts.definition _ hwritten)).2 hdefines⟩, hmark⟩
    | procedure | function => exact absurd rfl hform

/-- A function is made up by the parts that present it, if its arguments and its result are
read from the documents that denote them. -/
theorem makeUp_function_iff_presents {args : List Element} {returns : Option Element} {o : Bool}
    (hargs : ∀ e ∈ args, ReadFromDenoting e)
    (hreturns : ∀ r, returns = some r → ReadFromDenoting r) (parts : NamedParts)
    (hparts : parts.Ordered) :
    parts.MakeUp (.function args returns o) ↔
      Presents .asRead parts (.function args returns o) := by
  have heach : ∀ {items : List Json}, parts.args.getD (.array []) = .array items →
      (List.Forall₂ ReadsAs items args ↔
        List.Forall₂ (Denotes .asRead .inside) items args) := by
    intro items harguments
    have hitems : (parts.args.getD (.array [])).Ordered := by
      cases hwritten : parts.args with
      | none => trivial
      | some d => exact hparts.args d hwritten
    rw [harguments] at hitems
    exact forall₂_readsAs_iff (Json.orderedItems_iff.1 hitems) hargs
  rw [NamedParts.MakeUp, gives_args_iff, gives_returns_iff, gives_mark_iff]
  constructor
  · rintro ⟨⟨items, harguments, hread⟩, hresult, hmark⟩
    cases returns with
    | none => exact .procedure harguments ((heach harguments).1 hread) hresult hmark
    | some r =>
        obtain ⟨d, hwritten, hreads⟩ := hresult
        exact .function harguments ((heach harguments).1 hread) hwritten
          ((hreturns r rfl d (hparts.returns d hwritten)).1 hreads) hmark
  · intro hpresents
    cases hpresents with
    | definition _ hdefines => cases hdefines
    | procedure harguments hdenotes hnothing hmark =>
        exact ⟨⟨_, harguments, (heach harguments).2 hdenotes⟩, hnothing, hmark⟩
    | function harguments hdenotes hwritten hresult hmark =>
        exact ⟨⟨_, harguments, (heach harguments).2 hdenotes⟩,
          ⟨_, hwritten, (hreturns _ rfl _ (hparts.returns _ hwritten)).2 hresult⟩, hmark⟩

/-- An element is made up by the parts that present it. -/
theorem makeUp_iff_presents (e : Element) :
    ∀ parts : NamedParts, parts.Ordered → (parts.MakeUp e ↔ Presents .asRead parts e) := by
  -- what is known of the parts of a child is known of the documents of the child
  have hreads : ∀ {child : Element}, (∀ parts : NamedParts, parts.Ordered →
      (parts.MakeUp child ↔ Presents .asRead parts child)) → ReadFromDenoting child :=
    fun h d hd => reads_iff_denotes_of_makeUp_iff h hd
  induction e using Element.induction with
  | literal text o =>
      refine makeUp_iff_presents_of_definedBy_iff (by simp [form]) fun d _ => ⟨?_, ?_⟩
      · rintro rfl
        exact .literal
      · rintro ⟨⟩
        rfl
  | simple kind o =>
      refine makeUp_iff_presents_of_definedBy_iff (by simp [form]) fun d _ => ⟨?_, ?_⟩
      · exact fun hkind => .simple (asChoice_eq_ok_iff_kind.1 hkind)
      · intro hdefines
        cases hdefines with
        | simple hspelled => exact asChoice_eq_ok_iff_kind.2 hspelled
  | enumeration values o =>
      refine makeUp_iff_presents_of_definedBy_iff (by simp [form]) fun d _ => ⟨?_, ?_⟩
      · rintro rfl
        exact .enumeration
      · rintro ⟨⟩
        rfl
  | object attributes o ih =>
      have heach : ∀ {members : List (String × Json)}, Json.OrderedMembers members →
          (List.Forall₂ ReadsAs (members.map Prod.snd) (attributes.map Prod.snd) ↔
            List.Forall₂ (Denotes .asRead .inside) (members.map Prod.snd)
              (attributes.map Prod.snd)) := by
        intro members hmembers
        rw [Json.orderedMembers_iff] at hmembers
        exact forall₂_readsAs_iff (List.forall_mem_map.2 hmembers)
          (List.forall_mem_map.2 fun a ha => hreads (ih a ha))
      refine makeUp_iff_presents_of_definedBy_iff (by simp [form]) fun d hd => ⟨?_, ?_⟩
      · rintro ⟨members, rfl, hnames, hread⟩
        exact .object hnames ((heach hd.2).1 hread)
      · intro hdefines
        cases hdefines with
        | object hnames hdenotes => exact ⟨_, rfl, hnames, (heach hd.2).2 hdenotes⟩
  | array item o ih =>
      refine makeUp_iff_presents_of_definedBy_iff (by simp [form]) fun d hd => ⟨?_, ?_⟩
      · exact fun hread => .array ((hreads ih d hd).1 hread)
      · intro hdefines
        cases hdefines with
        | array hdenotes => exact (hreads ih d hd).2 hdenotes
  | record value o ih =>
      refine makeUp_iff_presents_of_definedBy_iff (by simp [form]) fun d hd => ⟨?_, ?_⟩
      · exact fun hread => .record ((hreads ih d hd).1 hread)
      · intro hdefines
        cases hdefines with
        | record hdenotes => exact (hreads ih d hd).2 hdenotes
  | union branches o ih =>
      have heach : ∀ {items : List Json}, Json.OrderedItems items →
          (List.Forall₂ ReadsAs items branches ↔
            List.Forall₂ (Denotes .asRead .inside) items branches) :=
        fun hitems => forall₂_readsAs_iff (Json.orderedItems_iff.1 hitems)
          fun e he => hreads (ih e he)
      refine makeUp_iff_presents_of_definedBy_iff (by simp [form]) fun d hd => ⟨?_, ?_⟩
      · rintro ⟨items, rfl, hread⟩
        exact .union ((heach hd).1 hread)
      · intro hdefines
        cases hdefines with
        | union hdenotes => exact ⟨_, rfl, (heach hd).2 hdenotes⟩
  | function args returns o hargs hreturns =>
      exact makeUp_function_iff_presents (fun e he => hreads (hargs e he))
        fun r hr => hreads (hreturns r hr)
  | lazy child o ih =>
      refine makeUp_iff_presents_of_definedBy_iff (by simp [form]) fun d hd => ⟨?_, ?_⟩
      · exact fun hread => .lazy ((hreads ih d hd).1 hread)
      · intro hdefines
        cases hdefines with
        | lazy hdenotes => exact (hreads ih d hd).2 hdenotes
  | reference target o =>
      refine makeUp_iff_presents_of_definedBy_iff (by simp [form]) fun d _ => ⟨?_, ?_⟩
      · rintro rfl
        exact .reference
      · rintro ⟨⟩
        rfl

/-- A document is read as the element that it denotes. -/
theorem reads_iff_denotes {standing : Standing} {d : Json} (hd : d.Ordered) {e : Element} :
    read standing d = .ok e ↔ Denotes .asRead standing d e :=
  reads_iff_denotes_of_makeUp_iff (makeUp_iff_presents e) hd

/-! ## Elements and sets -/

/-- A document is an element by any name exactly if it denotes that element. -/
theorem ofJson_eq_ok_iff {name : String} {d : Json} (hd : d.Ordered) {e : Element} :
    ofJson name d = .ok e ↔ Denotes .asRead .outermost d e := by
  rw [← reads_iff_denotes hd, ofJson]
  cases read .outermost d <;> simp

/-- What is not an element is malformed, under the name that it was read by. -/
theorem malformed_of_ofJson_eq_error {name : String} {d : Json} {error : SchemaError}
    (h : ofJson name d = .error error) :
    ∃ path detail, error = .malformedElement name path detail := by
  rw [ofJson] at h
  split at h
  · cases h
  · cases h
    exact ⟨_, _, rfl⟩

end Element

namespace SchemaSet

open Element

/-- Entries are read one by one and keep their names. -/
theorem readEntries_eq_ok_iff {members : List (String × Json)} {entries : List (String × Element)}
    (hmembers : Json.OrderedMembers members) :
    readEntries members = .ok entries ↔ Keyed.keys members = Keyed.keys entries ∧
      List.Forall₂ (Denotes .asRead .outermost) (members.map Prod.snd)
        (entries.map Prod.snd) := by
  induction members generalizing entries with
  | nil => cases entries <;> simp [readEntries, Keyed.keys]
  | cons member rest ih =>
      obtain ⟨name, d⟩ := member
      obtain ⟨hd, hrest⟩ := hmembers
      rw [readEntries, bind_eq_ok_iff]
      simp only [bind_eq_ok_iff, ofJson_eq_ok_iff hd, ih hrest]
      cases entries with
      | nil => simp [Keyed.keys]
      | cons first more =>
          obtain ⟨other, e⟩ := first
          simp [Keyed.keys, and_assoc, and_comm, and_left_comm]

/-- A set that is not read has a first entry that denotes nothing, and the fault is
that of this entry. -/
theorem exists_first_of_readEntries_eq_error {members : List (String × Json)}
    (hmembers : Json.OrderedMembers members) {error : SchemaError}
    (h : readEntries members = .error error) :
    ∃ before name d after, members = before ++ (name, d) :: after ∧
      (∀ member ∈ before, ∃ e, Denotes .asRead .outermost member.2 e) ∧
      (∀ e, ¬Denotes .asRead .outermost d e) ∧ Element.ofJson name d = .error error := by
  induction members with
  | nil => cases h
  | cons member rest ih =>
      obtain ⟨name, d⟩ := member
      obtain ⟨hd, hrest⟩ := hmembers
      rw [readEntries] at h
      rcases bind_eq_error_iff.1 h with hfault | ⟨e, hread, h⟩
      · refine ⟨[], name, d, rest, rfl, List.forall_mem_nil _, fun e hdenotes => ?_, hfault⟩
        rw [(ofJson_eq_ok_iff hd).2 hdenotes] at hfault
        cases hfault
      · have hlater : readEntries rest = .error error := by
          rcases bind_eq_error_iff.1 h with hlater | ⟨_, -, hnever⟩
          · exact hlater
          · cases hnever
        obtain ⟨before, other, fault, after, rfl, hbefore, hnothing⟩ := ih hrest hlater
        refine ⟨(name, d) :: before, other, fault, after, rfl, ?_, hnothing⟩
        exact List.forall_mem_cons.2 ⟨⟨e, (ofJson_eq_ok_iff hd).1 hread⟩, hbefore⟩

/-- An object is the set of what its members denote. -/
theorem ofJson_eq_ok_iff {members : List (String × Json)} {set : SchemaSet}
    (hmembers : Json.OrderedMembers members) :
    ofJson (.object members) = .ok set ↔ Keyed.keys members = set.names ∧
      List.Forall₂ (Denotes .asRead .outermost) (members.map Prod.snd)
        (set.elements.map Prod.snd) := by
  obtain ⟨entries⟩ := set
  rw [ofJson, bind_eq_ok_iff]
  simp only [readEntries_eq_ok_iff hmembers, Except.ok.injEq, mk.injEq, names]
  constructor
  · rintro ⟨_, h, rfl⟩
    exact h
  · exact fun h => ⟨entries, h, rfl⟩

/-- A set that is not read has a first entry that denotes nothing, and the fault is
that of this entry. -/
theorem exists_first_of_ofJson_eq_error {members : List (String × Json)}
    (hmembers : Json.OrderedMembers members) {error : SchemaError}
    (h : ofJson (.object members) = .error error) :
    ∃ before name d after, members = before ++ (name, d) :: after ∧
      (∀ member ∈ before, ∃ e, Denotes .asRead .outermost member.2 e) ∧
      (∀ e, ¬Denotes .asRead .outermost d e) ∧ Element.ofJson name d = .error error := by
  refine exists_first_of_readEntries_eq_error hmembers ?_
  rw [ofJson] at h
  rcases bind_eq_error_iff.1 h with hfault | ⟨_, -, hnever⟩
  · exact hfault
  · cases hnever

end SchemaSet

section Grammar

open Element

/-- A document is accepted as an element, by any name, exactly if it denotes that
element; else it is malformed, and the error says so under that name.  An object is
accepted as a set exactly if every member denotes an element, and the set has these
elements; else the error is that of the first member, in key order, that denotes
nothing. -/
theorem accepts_exactly_the_grammar {d : Json} (hd : d.Ordered) :
    (∀ name e, Element.ofJson name d = .ok e ↔ Denotes .asRead .outermost d e) ∧
    (∀ name, (∀ e, ¬Denotes .asRead .outermost d e) →
      ∃ path detail, Element.ofJson name d = .error (.malformedElement name path detail)) ∧
    ∀ members, d = .object members →
      (∀ set, SchemaSet.ofJson d = .ok set ↔ Keyed.keys members = set.names ∧
        List.Forall₂ (Denotes .asRead .outermost) (members.map Prod.snd)
          (set.elements.map Prod.snd)) ∧
      ((∃ set, SchemaSet.ofJson d = .ok set) ↔
        ∀ member ∈ members, ∃ e, Denotes .asRead .outermost member.2 e) ∧
      ∀ error, SchemaSet.ofJson d = .error error → ∃ before name document after path detail,
        members = before ++ (name, document) :: after ∧
        (∀ member ∈ before, ∃ e, Denotes .asRead .outermost member.2 e) ∧
        (∀ e, ¬Denotes .asRead .outermost document e) ∧
        Element.ofJson name document = .error error ∧
        error = .malformedElement name path detail := by
  refine ⟨fun name e => ofJson_eq_ok_iff hd, fun name hnothing => ?_, ?_⟩
  · cases hread : Element.ofJson name d with
    | ok e => exact absurd ((ofJson_eq_ok_iff hd).1 hread) (hnothing e)
    | error error =>
        obtain ⟨path, detail, rfl⟩ := malformed_of_ofJson_eq_error hread
        exact ⟨path, detail, rfl⟩
  · rintro members rfl
    refine ⟨fun set => SchemaSet.ofJson_eq_ok_iff hd.2, ⟨?_, fun hall => ?_⟩,
      fun error herror => ?_⟩
    · rintro ⟨set, hset⟩ member hmember
      obtain ⟨e, -, hdenotes⟩ := Keyed.exists_of_mem_right
        ((SchemaSet.ofJson_eq_ok_iff hd.2).1 hset).2.flip (List.mem_map_of_mem hmember)
      exact ⟨e, hdenotes⟩
    · cases hread : SchemaSet.ofJson (.object members) with
      | ok set => exact ⟨set, rfl⟩
      | error error =>
          obtain ⟨before, name, document, after, rfl, -, hnothing, -⟩ :=
            SchemaSet.exists_first_of_ofJson_eq_error hd.2 hread
          obtain ⟨e, hdenotes⟩ := hall (name, document)
            (List.mem_append_right _ List.mem_cons_self)
          exact absurd hdenotes (hnothing e)
    · obtain ⟨before, name, document, after, hmembers, hbefore, hnothing, hfault⟩ :=
        SchemaSet.exists_first_of_ofJson_eq_error hd.2 herror
      obtain ⟨path, detail, hmalformed⟩ := malformed_of_ofJson_eq_error hfault
      exact ⟨before, name, document, after, path, detail, hmembers, hbefore, hnothing, hfault,
        hmalformed⟩

/-- A list in the array notation, of what it gives the position of the form for. -/
def listed : Json :=
  .object [("list", .array [.string "array",
    .object [("definition", .string "list"), ("type", .int 9)]])]

/-- Arrays inside a set are read, and positions inside an element. -/
theorem accepts_exactly_the_grammar_listed : listed.Ordered ∧
    SchemaSet.ofJson listed = .ok ⟨[("list", .array (.reference "list" false) false)]⟩ := by
  have hordered : listed.Ordered := by
    simp only [listed, Json.int, Json.Ordered, Json.OrderedItems, Json.OrderedMembers,
      Keyed.Sorted]
    decide
  refine ⟨hordered, (((accepts_exactly_the_grammar hordered).2.2 _ rfl).1 _).2 ⟨rfl, ?_⟩⟩
  have hinner : Denotes .asRead .inside
      (.object [("definition", .string "list"), ("type", .int 9)]) (.reference "list" false) :=
    .object rfl (.inr ⟨rfl, 9, rfl, rfl⟩) (.definition rfl .reference rfl)
  have houter : Denotes .asRead .outermost (.array [.string "array",
      .object [("definition", .string "list"), ("type", .int 9)]])
      (.array (.reference "list" false) false) :=
    .array (.inl rfl) (by decide) (.definition rfl (.array hinner) rfl)
  exact .cons houter .nil

/-- A list whose items give the position of their form. -/
def byPosition : Json :=
  .object [("definition", .object [("definition", .string "string"), ("type", .int 1)]),
    ("type", .string "array")]

/-- A primitive with an empty object under its name. -/
def inBraces : Json :=
  .object [("definition", .object [("string", .object [])]), ("type", .string "simpleType")]

/-- With names alone the grammar would be another one: both documents are accepted, and
neither denotes anything by names. -/
theorem accepts_more_than_names :
    (Element.ofJson "E" byPosition = .ok (.array (.simple .string false) false) ∧
      ∀ e, ¬Denotes .byName .outermost byPosition e) ∧
    Element.ofJson "E" inBraces = .ok (.simple .string false) ∧
      ∀ e, ¬Denotes .byName .outermost inBraces e := by
  refine ⟨⟨?_, fun e hdenotes => ?_⟩, ?_, fun e hdenotes => ?_⟩
  · have hordered : byPosition.Ordered := by
      simp only [byPosition, Json.int, Json.Ordered, Json.OrderedMembers, Keyed.Sorted]
      decide
    have hitem : Denotes .asRead .inside
        (.object [("definition", .string "string"), ("type", .int 1)]) (.simple .string false) :=
      .object rfl (.inr ⟨rfl, 1, rfl, rfl⟩) (.definition rfl (.simple (.inl (.inl rfl))) rfl)
    exact (ofJson_eq_ok_iff hordered).2
      (.object rfl (.inl rfl) (.definition rfl (.array hitem) rfl))
  · cases hdenotes with
    | object found form parts =>
        cases found
        have htag : Json.string "array" = .string e.form.tag := form
        cases e with
        | array item o =>
            cases parts with
            | definition written defines mark =>
                cases written
                cases defines with
                | array each =>
                    -- the tag of the items is a number, and a number is no name
                    cases each with
                    | object found form parts =>
                        cases found
                        cases form
        | _ => simp [Element.form, Form.tag] at htag
  · have hordered : inBraces.Ordered := by
      simp only [inBraces, Json.Ordered, Json.OrderedMembers, Keyed.Sorted]
      decide
    exact (ofJson_eq_ok_iff hordered).2
      (.object rfl (.inl rfl) (.definition rfl (.simple (.inr rfl)) rfl))
  · cases hdenotes with
    | object found form parts =>
        cases found
        have htag : Json.string "simpleType" = .string e.form.tag := form
        cases e with
        | simple kind o =>
            cases parts with
            | definition written defines mark =>
                cases written
                cases defines with
                | simple spelled =>
                    -- an empty object is neither a name nor null
                    rcases spelled with hword | hnull
                    · cases hword
                    · simp at hnull
        | _ => simp [Element.form, Form.tag] at htag

end Grammar
end SchemaSets
