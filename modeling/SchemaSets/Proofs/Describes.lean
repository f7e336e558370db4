import SchemaSets.Proofs.Walk

/-!
# What an element describes

An element describes the values that it accepts, and in a set of elements a
reference describes whatever its target does.  Nothing in this needs a compiler
or a walk: `Describes` is the least relation that is closed under one rule for
each form of element.  A reference that leads back to itself without passing a
value describes nothing on that account alone, since no finite tree of rules
ever ends.

Compiling and walking decide this relation.  The rules for elements and the
reasons for validators translate into each other (`describes_iff_fits`), and
where all references are defined every walk comes to its end; so the report on
a slot is always there, and it is valid exactly if the element describes the
slot (`report_iff_describes`).
-/

namespace SchemaSets

/-- An element of the set describes a slot. -/
inductive SchemaSet.Describes (set : SchemaSet) (policy : UnknownAttributes) :
    Element → Slot → Prop
  | absent {e : Element} (marked : e.isOptional = true) : Describes set policy e none
  | any {o : Bool} {slot : Slot} : Describes set policy (.simple .any o) slot
  | fewChoices {values : List String} {o : Bool} {slot : Slot} (few : values.length < 2) :
      Describes set policy (.enumeration values o) slot
  | literal {text : String} {o : Bool} :
      Describes set policy (.literal text o) (some (.string text))
  | boolean {o : Bool} {b : Bool} : Describes set policy (.simple .boolean o) (some (.bool b))
  | string {o : Bool} {text : String} :
      Describes set policy (.simple .string o) (some (.string text))
  | number {o : Bool} {x : Float} (isNumber : x.isNaN = false) :
      Describes set policy (.simple .number o) (some (.number x))
  | choice {values : List String} {o : Bool} {text : String} (mem : text ∈ values) :
      Describes set policy (.enumeration values o) (some (.string text))
  | function {args : List Element} {returns : Option Element} {o : Bool} {f : Callable} :
      Describes set policy (.function args returns o) (some (.function f))
  | object {attributes : List (String × Element)} {o : Bool} {members : List (String × Value)}
      (each : ∀ a ∈ attributes, Describes set policy a.2 (Keyed.find? a.1 members))
      (listed : policy = .reject → ∀ member ∈ members, ∃ a ∈ attributes, a.1 = member.1) :
      Describes set policy (.object attributes o) (some (.object members))
  | array {item : Element} {o : Bool} {items : List Value}
      (each : ∀ x ∈ items, Describes set policy item (some x)) :
      Describes set policy (.array item o) (some (.array items))
  | record {value : Element} {o : Bool} {members : List (String × Value)}
      (each : ∀ member ∈ members, Describes set policy value (some member.2)) :
      Describes set policy (.record value o) (some (.object members))
  | union {branches : List Element} {o : Bool} {branch : Element} {slot : Slot}
      (mem : branch ∈ branches) (describes : Describes set policy branch slot) :
      Describes set policy (.union branches o) slot
  | lazy {child : Element} {o : Bool} {slot : Slot} (describes : Describes set policy child slot) :
      Describes set policy (.lazy child o) slot
  | reference {target : String} {o : Bool} {e : Element} {slot : Slot}
      (found : set.get? target = some e) (describes : Describes set policy e slot) :
      Describes set policy (.reference target o) slot

/-- Every reference outside function signatures names an entry of the set. -/
def SchemaSet.DanglingFree (set : SchemaSet) : Prop :=
  ∀ entry ∈ set.elements, ∀ target ∈ entry.2.targets, set.contains target = true

instance (set : SchemaSet) : Decidable set.DanglingFree :=
  inferInstanceAs (Decidable (∀ entry ∈ set.elements, ∀ target ∈ entry.2.targets, _))

namespace Element

variable {policy : UnknownAttributes} {owner : String} {registry : Handle}

/-- A compiled object lists the attributes of its element. -/
theorem unlisted_compile_eq_nil_iff {attributes : List (String × Element)}
    {members : List (String × Value)} :
    unlisted (compileAttributes policy owner registry attributes) members = [] ↔
      ∀ member ∈ members, ∃ a ∈ attributes, a.1 = member.1 := by
  rw [unlisted_eq_nil_iff, keys_compileAttributes]
  simp only [Keyed.keys, List.mem_map]

end Element

section

variable {set : SchemaSet} {settings : CompilerSettings} {registry : Handle}

/-- A mark does not take a slot away. -/
private theorem FitsBeyond.wrap {set : CompiledSet} {chain : List String} {v : Validator}
    {slot : Slot} (h : FitsBeyond set chain v slot) (o : Bool) :
    FitsBeyond set chain (Element.wrap o v) slot := by
  cases o with
  | false => exact h
  | true =>
      cases slot with
      | none => exact .absent
      | some x => exact .present h

/-- What an element describes fits its validator. -/
theorem fits_of_describes {e : Element} {slot : Slot}
    (h : set.Describes settings.unknownAttributes e slot) (owner : String) :
    Fits (set.compile settings registry)
      (e.compile settings.unknownAttributes owner registry) slot := by
  induction h generalizing owner with
  | @absent e marked =>
      rw [Element.compile_eq_wrap, marked]
      exact .absent
  | any => exact FitsBeyond.wrap (.leaf rfl) _
  | fewChoices few =>
      rw [Element.compile, if_pos few]
      exact FitsBeyond.wrap (.leaf rfl) _
  | literal => exact FitsBeyond.wrap (.leaf (by simp [Validator.leafTakes, Slot.isText])) _
  | boolean => exact FitsBeyond.wrap (.leaf rfl) _
  | string => exact FitsBeyond.wrap (.leaf rfl) _
  | @number o x isNumber =>
      have htakes : Validator.leafTakes .number (some (.number x)) = true :=
        Slot.isNumber_iff.2 ⟨x, isNumber, rfl⟩
      exact FitsBeyond.wrap (.leaf htakes) _
  | @choice values o text mem =>
      rw [Element.compile]
      refine FitsBeyond.wrap ?_ _
      split
      · exact .leaf rfl
      · exact .leaf (by simpa [Validator.leafTakes, Slot.isText] using mem)
  | @function args returns o f =>
      cases returns <;> exact FitsBeyond.wrap (.leaf rfl) _
  | object each listed ih =>
      rw [Element.compile]
      refine FitsBeyond.wrap (.object ?_ ?_) _
      · rintro ⟨name, v⟩ hfield
        obtain ⟨a, ha, rfl, rfl⟩ := Element.mem_compileAttributes.1 hfield
        exact ih a ha owner
      · intro hclosed
        exact Element.unlisted_compile_eq_nil_iff.2 (listed (by simpa using hclosed))
  | array each ih =>
      rw [Element.compile]
      exact FitsBeyond.wrap (.array fun x hx => ih x hx owner) _
  | record each ih =>
      rw [Element.compile]
      exact FitsBeyond.wrap (.record fun member hmember => ih member hmember owner) _
  | union mem _ ih =>
      rw [Element.compile]
      exact FitsBeyond.wrap (.union (Element.mem_compileList.2 ⟨_, mem, rfl⟩) (ih owner)) _
  | lazy _ ih =>
      rw [Element.compile]
      exact FitsBeyond.wrap (.lazy (ih owner)) _
  | @reference target o e slot found _ ih =>
      rw [Element.compile]
      refine FitsBeyond.wrap (fits_reference_iff.2 ?_) _
      exact ⟨_, SchemaSet.get?_compile_of_eq found, ih target⟩

/-- A value that is there is described with a mark or without. -/
theorem describes_withOptional_iff {policy : UnknownAttributes} {e : Element} {x : Value}
    {o : Bool} :
    set.Describes policy (e.withOptional o) (some x) ↔ set.Describes policy e (some x) := by
  constructor
  · intro h
    cases e with
    | enumeration values p =>
        cases h with
        | fewChoices few => exact .fewChoices few
        | choice mem => exact .choice mem
    | _ => cases h <;> constructor <;> assumption
  · intro h
    cases h with
    | fewChoices few => exact .fewChoices few
    | choice mem => exact .choice mem
    | _ => constructor <;> assumption

/-- What a compiled leaf asks for is what its element describes. -/
private theorem describes_of_leafTakes {policy : UnknownAttributes} {e : Element} {slot : Slot}
    {owner : String} (h : (e.compile policy owner registry).leafTakes slot = true) :
    set.Describes policy e slot := by
  rw [Element.compile_eq_wrap] at h
  cases hmark : e.isOptional with
  | true =>
      rw [hmark] at h
      cases h
  | false =>
      rw [hmark, Element.wrap_false] at h
      cases e with
      | literal text o =>
          obtain ⟨s, hs, rfl⟩ := Slot.isText_iff.1 h
          rw [List.mem_singleton] at hs
          exact hs ▸ .literal
      | simple kind o =>
          cases kind with
          | any => exact .any
          | boolean =>
              obtain ⟨b, rfl⟩ := Slot.isBool_iff.1 h
              exact .boolean
          | string =>
              obtain ⟨s, rfl⟩ := Slot.isString_iff.1 h
              exact .string
          | number =>
              obtain ⟨x, hx, rfl⟩ := Slot.isNumber_iff.1 h
              exact .number hx
      | enumeration values o =>
          rw [Element.withOptional, Element.compile, Element.wrap_false] at h
          split at h
          · exact .fewChoices ‹_›
          · obtain ⟨s, hs, rfl⟩ := Slot.isText_iff.1 h
            exact .choice hs
      | function args returns o =>
          have hfunction : slot.isFunction = true := by cases returns <;> exact h
          obtain ⟨f, rfl⟩ := Slot.isFunction_iff.1 hfunction
          exact .function
      | object | array | record | union | lazy | reference => cases h

/-- What fits the validator of an element is described by the element. -/
theorem describes_of_fitsBeyond {chain : List String} {v : Validator} {slot : Slot}
    (h : FitsBeyond (set.compile settings registry) chain v slot) {e : Element} {owner : String}
    (hv : e.compile settings.unknownAttributes owner registry = v) :
    set.Describes settings.unknownAttributes e slot := by
  induction h generalizing e owner with
  | leaf takes =>
      subst hv
      exact describes_of_leafTakes takes
  | object each listed ih =>
      obtain ⟨attributes, rfl, rfl, rfl⟩ := Element.origin_of_compile_eq hv
      refine .object (fun a ha => ?_) fun hpolicy => ?_
      · exact ih _ (Element.mem_compileAttributes.2 ⟨a, ha, rfl, rfl⟩) rfl
      · exact Element.unlisted_compile_eq_nil_iff.1 (listed (by simpa using hpolicy))
  | array each ih =>
      obtain ⟨child, rfl, rfl⟩ := Element.origin_of_compile_eq hv
      exact .array fun x hx => ih x hx rfl
  | record each ih =>
      obtain ⟨child, rfl, rfl⟩ := Element.origin_of_compile_eq hv
      exact .record fun member hmember => ih member hmember rfl
  | union mem _ ih =>
      obtain ⟨es, rfl, rfl⟩ := Element.origin_of_compile_eq hv
      obtain ⟨branch, hbranch, hcompile⟩ := Element.mem_compileList.1 mem
      exact .union hbranch (ih hcompile)
  | lazy _ ih =>
      obtain ⟨child, rfl, -, rfl⟩ := Element.origin_of_compile_eq hv
      exact .lazy (ih rfl)
  | reference _ found _ ih =>
      obtain ⟨rfl, -, -⟩ := Element.origin_of_compile_eq hv
      obtain ⟨e, he, rfl⟩ := SchemaSet.exists_of_get?_compile found
      exact .reference he (ih rfl)
  | absent =>
      exact .absent (Element.origin_of_compile_eq hv).1
  | present _ ih =>
      obtain ⟨-, rfl⟩ := Element.origin_of_compile_eq hv
      exact describes_withOptional_iff.1 (ih rfl)

/-- Compiling keeps the meaning: what an element describes is what fits its
validator. -/
theorem describes_iff_fits {e : Element} {owner : String} {slot : Slot} :
    set.Describes settings.unknownAttributes e slot ↔
      Fits (set.compile settings registry)
        (e.compile settings.unknownAttributes owner registry) slot :=
  ⟨fun h => fits_of_describes h owner, fun h => describes_of_fitsBeyond h rfl⟩

end

/-- In a set without dangling references, the walk of an element whose references are
all defined comes to its end. -/
theorem exists_issues_of_danglingFree {set : SchemaSet} {settings : CompilerSettings}
    {shelf : Shelf} {registry : Handle} (hclosed : set.DanglingFree)
    (hset : Stands shelf registry (set.compile settings registry))
    {e : Element} (htargets : ∀ target ∈ e.targets, set.contains target = true)
    (owner : String) (chain : List String) (slot : Slot) :
    ∃ issues, walk shelf chain (e.compile settings.unknownAttributes owner registry) slot =
      .ok issues := by
  have hmet : ∀ target, set.contains target = true →
      ∃ entry, (set.compile settings registry).get? target = some entry ∧
        ∀ link ∈ entry.validator.links, set.contains link.target = true := by
    intro target htarget
    obtain ⟨found, hfound⟩ := Option.isSome_iff_exists.1 htarget
    refine ⟨_, SchemaSet.get?_compile_of_eq hfound, ?_⟩
    intro link hlink
    exact hclosed _ (Keyed.mem_of_find? hfound) _ (Element.mem_links_compile.1 hlink).1
  have hlinks : (e.compile settings.unknownAttributes owner registry).LinksWithin registry
      fun target => set.contains target = true := by
    intro link hlink
    obtain ⟨htarget, -, hregistry⟩ := Element.mem_links_compile.1 hlink
    exact ⟨hregistry, htargets _ htarget⟩
  exact exists_issues hset hmet hlinks chain slot

/-- An element whose references are all defined, in a set where they all are,
is decided by a walk of its validator. -/
theorem exists_report_describes {set : SchemaSet} {settings : CompilerSettings} {shelf : Shelf}
    {registry : Handle} (hclosed : set.DanglingFree)
    (hshelf : shelf.set? registry = some (set.compile settings registry))
    {e : Element} (htargets : ∀ target ∈ e.targets, set.contains target = true)
    (owner : String) (slot : Slot) :
    ∃ report, (e.compile settings.unknownAttributes owner registry).validateSlot shelf slot =
        .ok report ∧
      (report.isValid = true ↔ set.Describes settings.unknownAttributes e slot) := by
  have hset := Stands.of_compile hshelf
  have hinward : ∀ link ∈ (e.compile settings.unknownAttributes owner registry).links,
      link.registry = registry :=
    fun link hlink => (Element.mem_links_compile.1 hlink).2.2
  obtain ⟨issues, hissues⟩ :=
    exists_issues_of_danglingFree hclosed hset htargets owner [] slot
  have hreport : (e.compile settings.unknownAttributes owner registry).validateSlot shelf slot =
      .ok ⟨issues⟩ := validateSlot_eq_ok_iff.2 hissues
  refine ⟨⟨issues⟩, hreport, ?_⟩
  rw [isValid_iff_fits hset hinward hreport]
  exact describes_iff_fits.symm

/-- In a set without dangling references there is a report on every slot under
every entry, and it is valid exactly if the element of the entry describes the
slot. -/
theorem report_iff_describes {set : SchemaSet} {settings : CompilerSettings} {shelf : Shelf}
    {registry : Handle} (hclosed : set.DanglingFree)
    (hshelf : shelf.set? registry = some (set.compile settings registry))
    {name : String} {e : Element} (hname : set.get? name = some e) (slot : Slot) :
    ∃ entry report, (set.compile settings registry).entry name = .ok entry ∧
      entry.validator.validateSlot shelf slot = .ok report ∧
      (report.isValid = true ↔ set.Describes settings.unknownAttributes e slot) := by
  have htargets := hclosed _ (Keyed.mem_of_find? hname)
  obtain ⟨report, hreport, hvalid⟩ :=
    exists_report_describes hclosed hshelf htargets name slot
  exact ⟨_, report, SchemaSet.entry_compile_of_eq hname, hreport, hvalid⟩

/-- Two entries that refer to each other without end, one of which also takes a
list of the other. -/
def entangled : SchemaSet :=
  .ofList [("a", .union [.reference "b" false, .lazy (.reference "a" true) false] false),
    ("b", .union [.reference "a" false, .array (.reference "a" false) false] false)]

/-- The report on a list of lists under entries that refer to each other. -/
theorem report_iff_describes_entangled :
    ∃ entry report, (entangled.compile {} (.ofSet 0)).entry "a" = .ok entry ∧
      entry.validator.validateSlot (({} : Shelf).put 0 (entangled.compile {} (.ofSet 0)))
        (some (.array [.array []])) = .ok report ∧
      (report.isValid = true ↔ entangled.Describes .ignore
        (.union [.reference "b" false, .lazy (.reference "a" true) false] false)
        (some (.array [.array []]))) :=
  report_iff_describes (by decide) rfl (by decide) _

end SchemaSets
