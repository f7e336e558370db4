import SchemaSets.Proofs.Absence
import SchemaSets.Proofs.Documents
import SchemaSets.Proofs.JsonValues
import SchemaSets.Proofs.Walk

/-!
# Documents agree with validators

A document and a validator are two readings of one entry, and they are read by
two procedures that know nothing of each other.  Their common ground is that
both readings are least relations: the reasons for a value to fit, and the
steps by which an instance is seen to be valid.  Each relation is carried over
into the other by induction, one form of validator at a time.

What has to be right for this is gathered in `Carries`: every reference that
can be met leads to the schema of its entry.  Dependency closures see to that
(`carries_document`).  An attribute is required exactly if nothing fits it,
which is what the search for absence finds out (`mem_requiredFields_iff`).

Only functions stand apart.  No document of JSON holds one, and the schema of a
function lets everything through, so documents may take more than validators
where a function can be met.

## Main results

* `valid_of_fitsBeyond`, `fits_of_valid` — the two inductions.
* `document_agrees` — the documents of an exported set and its validators.
-/

namespace SchemaSets

open Draft07

/-! ## Functions -/

namespace Validator

mutual
/-- Whether a validator holds no function, function signatures left out. -/
def callFree : Validator → Bool
  | .any | .literal _ | .boolean | .string | .number | .enumeration _ | .reference _ _ _ => true
  | .function _ _ => false
  | .object fields _ => callFreeFields fields
  | .array item => callFree item
  | .record value => callFree value
  | .union branches => callFreeList branches
  | .lazy _ child => callFree child
  | .optional inner => callFree inner
/-- Whether a list of validators holds no function. -/
def callFreeList : List Validator → Bool
  | [] => true
  | v :: rest => callFree v && callFreeList rest
/-- Whether a list of fields holds no function. -/
def callFreeFields : List (String × Validator) → Bool
  | [] => true
  | (_, v) :: rest => callFree v && callFreeFields rest
end

theorem callFreeList_iff {vs : List Validator} :
    callFreeList vs = true ↔ ∀ v ∈ vs, v.callFree = true := by
  induction vs with
  | nil => simp [callFreeList]
  | cons v vs ih => simp [callFreeList, ih]

theorem callFreeFields_iff {fields : List (String × Validator)} :
    callFreeFields fields = true ↔ ∀ field ∈ fields, field.2.callFree = true := by
  induction fields with
  | nil => simp [callFreeFields]
  | cons field rest ih =>
      obtain ⟨name, v⟩ := field
      simp [callFreeFields, ih]

@[simp] theorem callFree_wrap (o : Bool) (v : Validator) :
    (Element.wrap o v).callFree = v.callFree := by
  cases o <;> simp [Element.wrap, callFree]

end Validator

namespace Element

open Validator

mutual
/-- Whether an element holds no function, function signatures left out. -/
def callFree : Element → Bool
  | .literal _ _ | .simple _ _ | .enumeration _ _ | .reference _ _ => true
  | .function _ _ _ => false
  | .object attributes _ => callFreeAttributes attributes
  | .array item _ => callFree item
  | .record value _ => callFree value
  | .union branches _ => callFreeList branches
  | .lazy child _ => callFree child
/-- Whether a list of elements holds no function. -/
def callFreeList : List Element → Bool
  | [] => true
  | e :: rest => callFree e && callFreeList rest
/-- Whether a list of attributes holds no function. -/
def callFreeAttributes : List (String × Element) → Bool
  | [] => true
  | (_, e) :: rest => callFree e && callFreeAttributes rest
end

variable (policy : UnknownAttributes) (owner : String) (registry : Handle)

mutual
/-- Compiling adds no functions and takes none away. -/
theorem callFree_compile (e : Element) :
    (e.compile policy owner registry).callFree = e.callFree := by
  cases e with
  | simple kind o => cases kind <;> simp [compile, compileSimple, Validator.callFree, callFree]
  | enumeration values o =>
      rw [compile, callFree_wrap]
      split <;> rfl
  | function args returns o => cases returns <;> simp [compile, Validator.callFree, callFree]
  | object attributes o =>
      simp [compile, Validator.callFree, callFree, callFreeFields_compile attributes]
  | union branches o => simp [compile, Validator.callFree, callFree, callFreeList_compile branches]
  | array item o => simp [compile, Validator.callFree, callFree, callFree_compile item]
  | record value o => simp [compile, Validator.callFree, callFree, callFree_compile value]
  | lazy child o => simp [compile, Validator.callFree, callFree, callFree_compile child]
  | _ => simp [compile, Validator.callFree, callFree]
/-- Compiling a list adds no functions and takes none away. -/
theorem callFreeList_compile (es : List Element) :
    Validator.callFreeList (compileList policy owner registry es) = callFreeList es := by
  cases es with
  | nil => rfl
  | cons e es =>
      simp [compileList, Validator.callFreeList, callFreeList, callFree_compile e,
        callFreeList_compile es]
/-- Compiling attributes adds no functions and takes none away. -/
theorem callFreeFields_compile (attributes : List (String × Element)) :
    callFreeFields (compileAttributes policy owner registry attributes) =
      callFreeAttributes attributes := by
  cases attributes with
  | nil => rfl
  | cons first rest =>
      obtain ⟨name, e⟩ := first
      simp [compileAttributes, callFreeFields, callFreeAttributes, callFree_compile e,
        callFreeFields_compile rest]
end

end Element

/-! ## Leaves -/

section Leaves

variable {shelf : Shelf} {key : String} {v : Validator} {inst : Json}

/-- What a leaf takes passes the schema of the leaf. -/
theorem checkFlat_of_leafTakes (h : v.leafTakes (some (.ofJson inst)) = true) :
    checkFlat (v.schemaMembers shelf key) inst = true := by
  cases v with
  | any | function => rfl
  | literal text =>
      obtain ⟨s, hs, hslot⟩ := Slot.isText_iff.1 h
      obtain rfl := Value.ofJson_eq_string_iff.1 (Option.some.inj hslot)
      obtain rfl := List.mem_singleton.1 hs
      simp [checkFlat, checkType, checkConst, checkEnum, checkRequired, Validator.schemaMembers,
        Keyed.find?, hasType, Json.same]
  | enumeration values =>
      obtain ⟨s, hs, hslot⟩ := Slot.isText_iff.1 h
      obtain rfl := Value.ofJson_eq_string_iff.1 (Option.some.inj hslot)
      simp [checkFlat, checkType, checkConst, checkEnum, checkRequired, Validator.schemaMembers,
        Keyed.find?, hasType, Json.same, Json.strings, hs]
  | boolean | string | number => cases inst <;> first | rfl | cases h
  | _ => cases h

/-- What passes the schema of a leaf is taken by the leaf, unless the leaf is a
function, for which no schema can stand. -/
theorem leafTakes_of_checkFlat (hleaf : v.IsLeaf) (hcalls : v.callFree = true)
    (hnumeric : inst.Numeric) (h : checkFlat (v.schemaMembers shelf key) inst = true) :
    v.leafTakes (some (.ofJson inst)) = true := by
  cases v with
  | any => rfl
  | function => cases hcalls
  | literal text =>
      cases inst with
      | string s =>
          simp only [checkFlat, checkConst, Validator.schemaMembers, Keyed.find?, if_pos, Json.same,
            Bool.and_eq_true, beq_iff_eq] at h
          exact Slot.isText_iff.2 ⟨s, by simp [h.1.1.2], rfl⟩
      | _ => cases h
  | enumeration values =>
      cases inst with
      | string s =>
          have hs : s ∈ values := by
            simpa [checkFlat, checkType, checkConst, checkEnum, checkRequired,
              Validator.schemaMembers, Keyed.find?, hasType, Json.same, Json.strings] using h
          exact Slot.isText_iff.2 ⟨s, hs, rfl⟩
      | _ => simp [checkFlat, checkType, Validator.schemaMembers, Keyed.find?, hasType] at h
  | boolean | string => cases inst <;> first | rfl | cases h
  | number =>
      cases inst with
      | number n =>
          have hnumber := Json.isNaN_toFloat_of_numeric hnumeric
          exact Slot.isNumber_iff.2 ⟨n.toFloat, hnumber, rfl⟩
      | _ => cases h
  | _ => exact hleaf.elim

end Leaves

/-! ## Validators and their schemas -/

/-- A document carries the definitions of some names: a reference to one of them
leads to the schema of its entry, if it has one, and the entry refers to no
other names. -/
structure Carries (shelf : Shelf) (key : String) (set : CompiledSet) (root : Json)
    (Within : String → Prop) : Prop where
  defines : ∀ name, Within name →
    target? root (definitionReference key name) =
      (set.get? name).map fun entry => .object (entry.validator.schemaMembers shelf key)
  closed : ∀ name entry, Within name → set.get? name = some entry →
    ∀ link ∈ entry.validator.links, Within link.target

section Schemas

variable {shelf : Shelf} {registry : Handle} {set : CompiledSet} {key : String} {root : Json}
variable {Within : String → Prop}

/-- The required fields are those that an empty slot does not fit. -/
theorem mem_requiredFields_iff (hset : Stands shelf registry set)
    {fields : List (String × Validator)}
    (hlinks : ∀ field ∈ fields, field.2.LinksWithin registry Within) {name : String} :
    name ∈ requiredFields shelf fields ↔
      ∃ field ∈ fields, field.1 = name ∧ ¬Fits set field.2 none := by
  rw [mem_requiredFields]
  refine exists_congr fun field => and_congr_right fun hfield => and_congr_right fun _ => ?_
  rw [← mayBeAbsent_iff hset (hlinks field hfield).inward, Bool.not_eq_true]

/-- An instance whose value fits a validator is valid against its schema. -/
theorem valid_of_fitsBeyond (hset : Stands shelf registry set)
    (hroot : Carries shelf key set root Within) {chain : List String} {v : Validator} {slot : Slot}
    (h : FitsBeyond set chain v slot) {inst : Json} (hslot : slot = some (.ofJson inst))
    (hlinks : v.LinksWithin registry Within) :
    Valid root (.object (v.schemaMembers shelf key)) inst := by
  induction h generalizing inst with
  | @leaf chain v slot takes =>
      subst hslot
      have hleaf : v.IsLeaf := by
        cases v <;> trivial
      exact .of_rule ((rule_leaf_iff hleaf).2 (checkFlat_of_leafTakes takes))
  | @object chain fields closed members each listed ih =>
      obtain ⟨present, rfl, rfl⟩ := Value.ofJson_eq_object_iff.1 (Option.some.inj hslot).symm
      have hfield : ∀ field ∈ fields, field.2.LinksWithin registry Within :=
        fun field hfield => hlinks.of_field hfield
      refine .of_rule (rule_object_iff.2 ⟨present, rfl, fun name hname => ?_, ?_, ?_⟩)
      · obtain ⟨field, hmem, rfl, hfits⟩ := (mem_requiredFields_iff hset hfield).1 hname
        rw [Keyed.contains, Option.isSome_iff_ne_none]
        intro hnone
        have habsent := each field hmem
        rw [Value.find?_ofMembers, hnone] at habsent
        exact hfits habsent
      · intro field hmem value hvalue
        refine ih field hmem ?_ (hfield field hmem)
        rw [Value.find?_ofMembers, hvalue, Option.map_some]
      · intro hclosed member hmember hunlisted
        have hvalue := Value.mem_ofMembers.2 ⟨member, hmember, rfl⟩
        exact absurd (unlisted_eq_nil_iff.1 (listed hclosed) _ hvalue) hunlisted
  | @array chain item items each ih =>
      obtain ⟨elements, rfl, rfl⟩ := Value.ofJson_eq_array_iff.1 (Option.some.inj hslot).symm
      refine .of_rule (rule_array_iff.2 ⟨elements, rfl, fun x hx => ?_⟩)
      exact ih _ (Value.mem_ofItems.2 ⟨x, hx, rfl⟩) rfl hlinks
  | @record chain value members each ih =>
      obtain ⟨present, rfl, rfl⟩ := Value.ofJson_eq_object_iff.1 (Option.some.inj hslot).symm
      refine .of_rule (rule_record_iff.2 ⟨present, rfl, fun member hmember => ?_⟩)
      exact ih _ (Value.mem_ofMembers.2 ⟨member, hmember, rfl⟩) rfl hlinks
  | @union chain slot branches branch mem _ ih =>
      exact .of_rule (rule_union_iff.2 ⟨branch, mem, ih hslot (hlinks.of_branch mem)⟩)
  | lazy _ ih => exact ih hslot hlinks
  | @reference chain slot target owner through entry new found _ ih =>
      have hwithin := hlinks.target_of_reference
      have hentry := hset.linksWithin found (hroot.closed target entry hwithin found)
      refine .of_rule (rule_reference_iff.2 ⟨_, ?_, ih hslot hentry⟩)
      rw [hroot.defines target hwithin, found, Option.map_some]
  | absent => cases hslot
  | present _ ih => exact ih hslot hlinks

/-- Whatever validator a schema stands for, the value of the instance fits it,
if no function can be met. -/
private def Lifts (shelf : Shelf) (registry : Handle) (set : CompiledSet) (key : String)
    (Within : String → Prop) (schema inst : Json) : Prop :=
  ∀ v : Validator, schema = .object (v.schemaMembers shelf key) → inst.Numeric →
    v.callFree = true → v.LinksWithin registry Within → Fits set v (some (.ofJson inst))

/-- The rule lifts from schemas inside to the schema around them.  Marks and lazy
nodes leave no trace in a schema, so there is an induction on them. -/
private theorem fits_of_rule (hset : Stands shelf registry set)
    (hroot : Carries shelf key set root Within)
    (hcalls : ∀ name entry, Within name → set.get? name = some entry →
      entry.validator.callFree = true)
    {P : Json → Json → Prop} (hno : ∀ inst, ¬P (.bool false) inst)
    (hparts : ∀ schema inst, P schema inst → Lifts shelf registry set key Within schema inst)
    (v : Validator) {inst : Json}
    (hrule : Rule root P (.object (v.schemaMembers shelf key)) inst) (hnumeric : inst.Numeric)
    (hv : v.callFree = true)
    (hlinks : v.LinksWithin registry Within) :
    Fits set v (some (.ofJson inst)) := by
  by_cases hleaf : v.IsLeaf
  · exact .leaf (leafTakes_of_checkFlat hleaf hv hnumeric ((rule_leaf_iff hleaf).1 hrule))
  cases v with
  | any | literal | boolean | string | number | enumeration | function =>
      exact absurd trivial hleaf
  | object fields closed =>
      obtain ⟨present, rfl, hrequired, hfields, hclosed⟩ := rule_object_iff.1 hrule
      have hfield : ∀ field ∈ fields, field.2.LinksWithin registry Within :=
        fun field hfield => hlinks.of_field hfield
      refine .object (fun field hmem => ?_) fun hstrict => ?_
      · rw [Value.find?_ofMembers]
        cases hfound : Keyed.find? field.1 present with
        | none =>
            refine Classical.byContradiction fun habsent => ?_
            have hname := (mem_requiredFields_iff hset hfield).2 ⟨field, hmem, rfl, habsent⟩
            have hcontains := hrequired field.1 hname
            rw [Keyed.contains, hfound] at hcontains
            cases hcontains
        | some value =>
            exact hparts _ value (hfields field hmem value hfound) field.2 rfl
              (Json.numericMembers_iff.1 hnumeric _ (Keyed.mem_of_find? hfound))
              (Validator.callFreeFields_iff.1 hv field hmem) (hfield field hmem)
      · rw [unlisted_eq_nil_iff]
        intro member hmember
        obtain ⟨m, hm, rfl⟩ := Value.mem_ofMembers.1 hmember
        refine Classical.byContradiction fun hunlisted => ?_
        exact hno m.2 (hclosed hstrict m hm hunlisted)
  | array item =>
      obtain ⟨items, rfl, hitems⟩ := rule_array_iff.1 hrule
      refine .array fun x hx => ?_
      obtain ⟨element, helement, rfl⟩ := Value.mem_ofItems.1 hx
      exact hparts _ element (hitems element helement) item rfl
        (Json.numericItems_iff.1 hnumeric element helement) hv hlinks
  | record value =>
      obtain ⟨present, rfl, hpresent⟩ := rule_record_iff.1 hrule
      refine .record fun member hmember => ?_
      obtain ⟨m, hm, rfl⟩ := Value.mem_ofMembers.1 hmember
      exact hparts _ m.2 (hpresent m hm) value rfl (Json.numericMembers_iff.1 hnumeric m hm) hv
        hlinks
  | union branches =>
      obtain ⟨branch, hbranch, hp⟩ := rule_union_iff.1 hrule
      have hcallFree := Validator.callFreeList_iff.1 hv branch hbranch
      exact .union hbranch
        (hparts _ inst hp branch rfl hnumeric hcallFree (hlinks.of_branch hbranch))
  | lazy label child =>
      exact .lazy (fits_of_rule hset hroot hcalls hno hparts child hrule hnumeric hv hlinks)
  | reference target owner through =>
      obtain ⟨definition, hleads, hp⟩ := rule_reference_iff.1 hrule
      have hwithin := hlinks.target_of_reference
      rw [hroot.defines target hwithin, Option.map_eq_some_iff] at hleads
      obtain ⟨entry, hfound, rfl⟩ := hleads
      have hentry := hset.linksWithin hfound (hroot.closed target entry hwithin hfound)
      exact fits_reference_iff.2 ⟨entry, hfound, hparts _ inst hp entry.validator rfl hnumeric
        (hcalls target entry hwithin hfound) hentry⟩
  | optional inner =>
      exact .present (fits_of_rule hset hroot hcalls hno hparts inner hrule hnumeric hv hlinks)
termination_by v.size
decreasing_by
  all_goals
    rw [‹v = _›, Validator.size]
    omega

/-- An instance that is valid against the schema of a validator has a value that
fits the validator, if no function can be met. -/
theorem fits_of_valid (hset : Stands shelf registry set)
    (hroot : Carries shelf key set root Within)
    (hcalls : ∀ name entry, Within name → set.get? name = some entry →
      entry.validator.callFree = true)
    {v : Validator} {inst : Json} (h : Valid root (.object (v.schemaMembers shelf key)) inst)
    (hnumeric : inst.Numeric) (hv : v.callFree = true)
    (hlinks : v.LinksWithin registry Within) :
    Fits set v (some (.ofJson inst)) := by
  have hno : ∀ inst, ¬Valid root (.bool false) inst := fun inst hvalid => by
    cases hvalid.rule
  have hlifts : Lifts shelf registry set key Within (.object (v.schemaMembers shelf key)) inst := by
    refine h.induction fun schema inst hrule w hw hnumeric hcallFree hlinks => ?_
    subst hw
    exact fits_of_rule hset hroot hcalls (fun inst hp => hno inst hp.1) (fun _ _ hp => hp.2) w
      hrule hnumeric hcallFree hlinks
  exact hlifts v rfl hnumeric hv hlinks

/-- What a validator accepts is valid against its schema. -/
theorem valid_of_accepts (hset : Stands shelf registry set)
    (hroot : Carries shelf key set root Within) {v : Validator}
    (hlinks : v.LinksWithin registry Within) {inst : Json}
    (h : v.acceptsSlot shelf (some (.ofJson inst)) = .ok true) :
    Valid root (.object (v.schemaMembers shelf key)) inst := by
  obtain ⟨report, hreport, hvalid⟩ := acceptsSlot_eq_ok_iff.1 h
  rw [isValid_iff_fits hset hlinks.inward hreport] at hvalid
  exact valid_of_fitsBeyond hset hroot hvalid rfl hlinks

/-- What is valid against the schema of a validator is accepted, if all names
that can be met are defined and no function can be met. -/
theorem accepts_of_valid (hset : Stands shelf registry set)
    (hroot : Carries shelf key set root Within)
    (hdefined : ∀ name, Within name →
      ∃ entry, set.get? name = some entry ∧ entry.validator.callFree = true)
    {v : Validator} (hv : v.callFree = true)
    (hlinks : v.LinksWithin registry Within) {inst : Json}
    (hnumeric : inst.Numeric) (h : Valid root (.object (v.schemaMembers shelf key)) inst) :
    v.acceptsSlot shelf (some (.ofJson inst)) = .ok true := by
  have hmet : ∀ name, Within name → ∃ entry, set.get? name = some entry ∧
      ∀ link ∈ entry.validator.links, Within link.target := by
    intro name hname
    obtain ⟨entry, hentry, -⟩ := hdefined name hname
    exact ⟨entry, hentry, hroot.closed name entry hname hentry⟩
  have hcalls : ∀ name entry, Within name → set.get? name = some entry →
      entry.validator.callFree = true := by
    intro name entry hname hentry
    obtain ⟨found, hfound, hcallFree⟩ := hdefined name hname
    exact Option.some.inj (hfound.symm.trans hentry) ▸ hcallFree
  obtain ⟨report, hreport⟩ := exists_report hset hmet hlinks (some (.ofJson inst))
  refine acceptsSlot_eq_ok_iff.2 ⟨report, hreport, ?_⟩
  rw [isValid_iff_fits hset hlinks.inward hreport]
  exact fits_of_valid hset hroot hcalls h hnumeric hv hlinks

end Schemas

/-! ## Documents -/

section Documents

variable {set : SchemaSet} {compiled : CompiledSet} {settings : CompilerSettings}
variable {shelf : Shelf} {registry : Handle} {exporter : ExportSettings}
variable {name : String} {entry : Entry}

/-- The document of an entry carries the definitions of everything that the
entry leads to. -/
theorem carries_document (settings : CompilerSettings) (shelf : Shelf) (registry : Handle)
    (entry : Entry) (hreserved : ∀ entry ∈ set.elements, reservedName ∉ entry.2.targets)
    (hkey : exporter.definitionsKey ∉ "$schema" :: usedKeywords)
    (hname : set.contains entry.name = true) :
    Carries shelf exporter.definitionsKey (set.compile settings registry)
      ((set.compile settings registry).document shelf exporter set.dependencyMap entry)
      (Relation.ReflTransGen set.Refers entry.name) where
  defines := by
    intro target hwithin
    rw [List.mem_cons, not_or] at hkey
    have hscope : target ∈ CompiledSet.scope set.dependencyMap entry.name := by
      rw [SchemaSet.mem_scope_iff hname, SchemaSet.depends_eq_refers hreserved]
      exact hwithin
    rw [target?_document _ _ _ _ hkey.1, if_pos hscope]
    rfl
  closed := by
    intro other found hwithin hfound link hlink
    obtain ⟨e, he, rfl⟩ := SchemaSet.exists_of_get?_compile hfound
    exact hwithin.tail ⟨e, he, (Element.mem_links_compile.1 hlink).1⟩

/-- A document says of an instance what the schema of its entry says. -/
theorem valid_document_iff (shelf : Shelf) (dependencies : List (String × List String))
    (compiled : CompiledSet) (entry : Entry)
    (hkey : exporter.definitionsKey ∉ "$schema" :: usedKeywords) {root inst : Json} :
    Valid root (compiled.document shelf exporter dependencies entry) inst ↔
      Valid root (.object (entry.validator.schemaMembers shelf exporter.definitionsKey)) inst := by
  rw [List.mem_cons, not_or] at hkey
  have hdialect : "$schema" ∉ usedKeywords := by decide
  obtain ⟨members, hmembers, -, hother⟩ :=
    exists_members_document shelf dependencies compiled entry hkey.1
  have hsame : ∀ keyword ∈ usedKeywords, Keyed.find? keyword members =
      Keyed.find? keyword (entry.validator.schemaMembers shelf exporter.definitionsKey) := by
    intro keyword hkeyword
    exact hother keyword (fun h => hkey.2 (h ▸ hkeyword)) (fun h => hdialect (h ▸ hkeyword))
  rw [hmembers, Valid.iff_rule, Valid.iff_rule]
  exact ⟨Rule.congr hsame, Rule.congr fun keyword hkeyword => (hsame keyword hkeyword).symm⟩

/-- Exported documents agree with the validators of their entries.  What a
validator accepts is valid against the document.  If all names that the entry
leads to are defined, and no function is met, what is valid is also accepted.

References to the reserved name are left out of documents, so there must be
none; and the key of the definitions must not replace a keyword. -/
theorem document_agrees (hshelf : shelf.set? registry = some (set.compile settings registry))
    (hreserved : ∀ entry ∈ set.elements, reservedName ∉ entry.2.targets)
    (hkey : exporter.definitionsKey ∉ "$schema" :: usedKeywords)
    (hname : set.contains name = true) :
    ∃ entry document, (set.compile settings registry).entry name = .ok entry ∧
      ((set.compile settings registry).exportFor shelf exporter set).get? name = some document ∧
      (∀ inst, entry.validator.acceptsSlot shelf (some (.ofJson inst)) = .ok true →
        Valid document document inst) ∧
      ((∀ other, Relation.ReflTransGen set.Refers name other →
          ∃ e, set.get? other = some e ∧ e.callFree = true) →
        ∀ inst, inst.Numeric → Valid document document inst →
          entry.validator.acceptsSlot shelf (some (.ofJson inst)) = .ok true) := by
  have hset := Stands.of_compile hshelf
  obtain ⟨e, he⟩ := Option.isSome_iff_exists.1 hname
  have hentry : (set.compile settings registry).get? name = some (Entry.of name _) :=
    SchemaSet.get?_compile_of_eq he
  have hroot := carries_document settings shelf registry
    (Entry.of name (e.compile settings.unknownAttributes name registry)) hreserved hkey hname
  have hlinks := hset.linksWithin hentry (hroot.closed name _ .refl hentry)
  refine ⟨_, _, SchemaSet.entry_compile_of_eq he, get?_exportFor hentry, ?_, ?_⟩
  · intro inst haccepts
    exact (valid_document_iff _ _ _ _ hkey).2 (valid_of_accepts hset hroot hlinks haccepts)
  · intro hreach inst hnumeric hvalid
    have hdefined : ∀ other, Relation.ReflTransGen set.Refers name other →
        ∃ found, (set.compile settings registry).get? other = some found ∧
          found.validator.callFree = true := by
      intro other hother
      obtain ⟨e, he, hcallFree⟩ := hreach other hother
      refine ⟨_, SchemaSet.get?_compile_of_eq he, ?_⟩
      rw [Entry.of, Element.callFree_compile, hcallFree]
    obtain ⟨found, hfound, hcallFree⟩ := hdefined name .refl
    obtain rfl := Option.some.inj (hentry.symm.trans hfound)
    exact accepts_of_valid hset hroot hdefined hcallFree hlinks hnumeric
      ((valid_document_iff _ _ _ _ hkey).1 hvalid)

end Documents

/-- Nodes with a label, each of which may have a next one. -/
def linked : SchemaSet :=
  .ofList [("node", .object [("label", .simple .number false), ("next", .reference "node" true)]
    false)]

/-- The document of linked nodes and their validator take the same instances. -/
theorem document_agrees_linked :
    ∃ entry document, (linked.compile { unknownAttributes := .reject } (.ofSet 0)).entry "node" =
        .ok entry ∧
      ((linked.compile { unknownAttributes := .reject } (.ofSet 0)).exportFor
        (({} : Shelf).put 0 (linked.compile { unknownAttributes := .reject } (.ofSet 0)))
        { definitionsKey := "$defs" } linked).get? "node" = some document ∧
      ∀ inst : Json, inst.Numeric →
        (entry.validator.acceptsSlot
            (({} : Shelf).put 0 (linked.compile { unknownAttributes := .reject } (.ofSet 0)))
            (some (.ofJson inst)) = .ok true ↔
          Valid document document inst) := by
  have hreach : ∀ other, Relation.ReflTransGen linked.Refers "node" other → other = "node" := by
    intro other h
    induction h with
    | refl => rfl
    | tail _ hstep ih =>
        subst ih
        obtain ⟨e, he, hmem⟩ := hstep
        cases he
        exact List.mem_singleton.1 hmem
  have hshelf : (({} : Shelf).put 0 (linked.compile { unknownAttributes := .reject }
      (.ofSet 0))).set? (.ofSet 0) =
        some (linked.compile { unknownAttributes := .reject } (.ofSet 0)) := rfl
  obtain ⟨entry, document, hentry, hdocument, hsound, hcomplete⟩ :=
    @document_agrees linked _ _ _ { definitionsKey := "$defs" } "node" hshelf (by decide)
      (by decide) (by decide)
  refine ⟨entry, document, hentry, hdocument, fun inst hnumeric => ⟨hsound inst, ?_⟩⟩
  refine hcomplete (fun other hother => ?_) inst hnumeric
  obtain rfl := hreach other hother
  exact ⟨_, rfl, rfl⟩

end SchemaSets
