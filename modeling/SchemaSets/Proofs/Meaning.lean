import SchemaSets.Draft07.Rendering
import SchemaSets.Draft07.Validity
import SchemaSets.Proofs.Fits

/-!
# What a schema says of an instance

The meaning of the keywords that rendered schemas use, as draft-07 has it and
without a procedure.  A `$ref` says what its target says and hides whatever
stands beside it; its fragment is read as a plain pointer.  All other keywords
are met together.

One rule turns what the schemas inside a schema say into what that schema says
(`Rule`).  References make schemas refer to each other in circles, so validity
is the least relation that is closed under the rule (`Valid`): an instance is
valid if this can be seen in finitely many steps.

The second part reads the rule off for each form of rendered validator, with
any relation in the place of validity.  The same lemmas then serve to establish
validity and to draw conclusions from it by induction.
-/

namespace SchemaSets.Draft07

/-- The keywords of rendered schemas. -/
def usedKeywords : List String :=
  ["type", "const", "enum", "properties", "required", "additionalProperties", "items", "anyOf",
    "$ref"]

/-- The document that a reference leads to, its fragment read as a pointer. -/
def target? (root : Json) (text : String) : Option Json :=
  match text.toList with
  | '#' :: pointer =>
    (Json.Pointer.tokens? pointer).bind fun tokens => Json.Pointer.follow? tokens root
  | _ => none

/-- The names that a schema lists under `properties`. -/
def listedNames (members : List (String × Json)) : List String :=
  match Keyed.find? "properties" members with
  | some (.object listed) => Keyed.keys listed
  | _ => []

/-- An instance meets the keywords of a schema, where `P` relates the schemas
inside to the instances they are asked about. -/
structure Meets (P : Json → Json → Prop) (members : List (String × Json)) (inst : Json) :
    Prop where
  flat : checkFlat members inst = true
  anyOf : ∀ branches, Keyed.find? "anyOf" members = some (.array branches) →
    ∃ branch ∈ branches, P branch inst
  properties : ∀ listed present, Keyed.find? "properties" members = some (.object listed) →
    inst = .object present → ∀ property ∈ listed, ∀ value,
      Keyed.find? property.1 present = some value → P property.2 value
  additional : ∀ schema present, Keyed.find? "additionalProperties" members = some schema →
    inst = .object present → ∀ member ∈ present, member.1 ∉ listedNames members →
      P schema member.2
  items : ∀ schema elements, Keyed.find? "items" members = some schema →
    inst = .array elements → ∀ x ∈ elements, P schema x

/-- What follows about a schema inside `root` from what `P` says of others. -/
inductive Rule (root : Json) (P : Json → Json → Prop) : Json → Json → Prop
  | always {inst : Json} : Rule root P (.bool true) inst
  | reference {members : List (String × Json)} {inst : Json} {text : String} {target : Json}
      (hides : Keyed.find? "$ref" members = some (.string text))
      (leads : target? root text = some target) (holds : P target inst) :
      Rule root P (.object members) inst
  | keywords {members : List (String × Json)} {inst : Json}
      (bare : ∀ text, Keyed.find? "$ref" members ≠ some (.string text))
      (meets : Meets P members inst) : Rule root P (.object members) inst

/-- An instance is valid against a schema inside `root`: the least relation that
is closed under the rule. -/
def Valid (root schema inst : Json) : Prop :=
  ∀ P : Json → Json → Prop, (∀ s i, Rule root P s i → P s i) → P schema inst

section

variable {root : Json} {P Q : Json → Json → Prop} {members : List (String × Json)} {inst : Json}

/-- Keywords ask for no more than is known. -/
theorem Meets.mono (h : ∀ s i, P s i → Q s i) (hmeets : Meets P members inst) :
    Meets Q members inst where
  flat := hmeets.flat
  anyOf := by
    intro branches hbranches
    obtain ⟨branch, hbranch, hp⟩ := hmeets.anyOf branches hbranches
    exact ⟨branch, hbranch, h _ _ hp⟩
  properties := by
    intro listed present hlisted hpresent property hproperty value hvalue
    exact h _ _ (hmeets.properties listed present hlisted hpresent property hproperty value hvalue)
  additional := by
    intro schema present hschema hpresent member hmember hunlisted
    exact h _ _ (hmeets.additional schema present hschema hpresent member hmember hunlisted)
  items := by
    intro schema elements hschema helements x hx
    exact h _ _ (hmeets.items schema elements hschema helements x hx)

/-- More follows from more. -/
theorem Rule.mono (h : ∀ s i, P s i → Q s i) {schema : Json} (hrule : Rule root P schema inst) :
    Rule root Q schema inst := by
  cases hrule with
  | always => exact .always
  | reference hides leads holds => exact .reference hides leads (h _ _ holds)
  | keywords bare meets => exact .keywords bare (meets.mono h)

namespace Valid

variable {schema : Json}

/-- Validity is closed under the rule. -/
theorem of_rule (h : Rule root (Valid root) schema inst) : Valid root schema inst := by
  intro P hclosed
  exact hclosed _ _ (h.mono fun s i hvalid => hvalid P hclosed)

/-- What holds of a schema whenever the rule derives it from schemas of which it
holds, holds of everything valid. -/
theorem induction {motive : Json → Json → Prop}
    (step : ∀ s i, Rule root (fun s i => Valid root s i ∧ motive s i) s i → motive s i)
    (h : Valid root schema inst) : motive schema inst := by
  have hboth : Valid root schema inst ∧ motive schema inst := by
    refine h (fun s i => Valid root s i ∧ motive s i) fun s i hrule => ?_
    exact ⟨of_rule (hrule.mono fun _ _ hs => hs.1), step s i hrule⟩
  exact hboth.2

/-- Validity comes about by the rule only. -/
theorem rule (h : Valid root schema inst) : Rule root (Valid root) schema inst :=
  h.induction fun _ _ hrule => hrule.mono fun _ _ hs => hs.1

/-- Validity is one step of the rule. -/
theorem iff_rule : Valid root schema inst ↔ Rule root (Valid root) schema inst :=
  ⟨rule, of_rule⟩

end Valid

/-- Only the keywords of a schema matter. -/
theorem Rule.congr {others : List (String × Json)}
    (h : ∀ keyword ∈ usedKeywords, Keyed.find? keyword members = Keyed.find? keyword others)
    (hrule : Rule root P (.object members) inst) : Rule root P (.object others) inst := by
  simp only [usedKeywords, List.forall_mem_cons, List.not_mem_nil, false_implies,
    implies_true, and_true] at h
  obtain ⟨htype, hconst, henum, hproperties, hrequired, hadditional, hitems, hanyOf, href⟩ := h
  cases hrule with
  | reference hides leads holds => exact .reference (href ▸ hides) leads holds
  | keywords bare meets =>
      have hflat : checkFlat others inst = checkFlat members inst := by
        simp only [checkFlat, checkType, checkConst, checkEnum, checkRequired, htype, hconst,
          henum, hrequired]
      have hnames : listedNames others = listedNames members := by
        simp only [listedNames, hproperties]
      refine .keywords (href ▸ bare) ⟨?_, ?_, ?_, ?_, ?_⟩
      · exact hflat ▸ meets.flat
      · exact hanyOf ▸ meets.anyOf
      · exact hproperties ▸ meets.properties
      · exact hnames ▸ hadditional ▸ meets.additional
      · exact hitems ▸ meets.items

end

/-! ## The rule for rendered validators -/

section Rendered

open Validator

variable {root : Json} {P : Json → Json → Prop} {members : List (String × Json)} {inst : Json}
variable {shelf : Shelf} {key : String}

/-- A schema without a reference is its keywords. -/
theorem rule_bare_iff (h : Keyed.find? "$ref" members = none) :
    Rule root P (.object members) inst ↔ Meets P members inst := by
  constructor
  · intro hrule
    cases hrule with
    | reference hides => simp [h] at hides
    | keywords bare meets => exact meets
  · intro hmeets
    exact .keywords (by simp [h]) hmeets

/-- A schema that asks no other schemas is checked on the spot. -/
theorem meets_flat_iff (hanyOf : Keyed.find? "anyOf" members = none)
    (hproperties : Keyed.find? "properties" members = none)
    (hadditional : Keyed.find? "additionalProperties" members = none)
    (hitems : Keyed.find? "items" members = none) :
    Meets P members inst ↔ checkFlat members inst = true := by
  constructor
  · exact fun hmeets => hmeets.flat
  · intro hflat
    exact ⟨hflat, by simp [hanyOf], by simp [hproperties], by simp [hadditional], by simp [hitems]⟩

/-- The schema of a leaf is checked on the spot. -/
theorem rule_leaf_iff {v : Validator} (hleaf : v.IsLeaf) :
    Rule root P (.object (v.schemaMembers shelf key)) inst ↔
      checkFlat (v.schemaMembers shelf key) inst = true := by
  cases v with
  | any | literal | boolean | string | number | enumeration | function =>
      rw [rule_bare_iff rfl, meets_flat_iff rfl rfl rfl rfl]
  | _ => exact hleaf.elim

/-- The schema of a reference says what the definition of its target says. -/
theorem rule_reference_iff {target owner : String} {registry : Handle} :
    Rule root P (.object ((Validator.reference target owner registry).schemaMembers shelf key))
        inst ↔
      ∃ definition, target? root (definitionReference key target) = some definition ∧
        P definition inst := by
  constructor
  · intro hrule
    cases hrule with
    | reference hides leads holds =>
        simp only [schemaMembers, Keyed.find?, if_pos, Option.some.injEq,
          Json.string.injEq] at hides
        exact ⟨_, hides ▸ leads, holds⟩
    | keywords bare => exact absurd rfl (bare _)
  · rintro ⟨definition, leads, holds⟩
    exact .reference rfl leads holds

/-- The schemas of branches. -/
theorem mem_schemaList {branches : List Validator} {schema : Json} :
    schema ∈ schemaList shelf key branches ↔
      ∃ branch ∈ branches, schema = .object (branch.schemaMembers shelf key) := by
  induction branches with
  | nil => simp [schemaList]
  | cons branch rest ih => simp [schemaList, ih]

/-- The schemas of fields. -/
theorem mem_schemaFields {fields : List (String × Validator)} {property : String × Json} :
    property ∈ schemaFields shelf key fields ↔
      ∃ field ∈ fields, property = (field.1, .object (field.2.schemaMembers shelf key)) := by
  induction fields with
  | nil => simp [schemaFields]
  | cons field rest ih => simp [schemaFields, ih]

/-- The schemas of fields are listed under the names of the fields. -/
theorem keys_schemaFields (fields : List (String × Validator)) :
    Keyed.keys (schemaFields shelf key fields) = Keyed.keys fields := by
  induction fields with
  | nil => rfl
  | cons field rest ih => simpa [schemaFields, Keyed.keys] using ih

/-- The schema of a union says of an instance what one of the branches says. -/
theorem rule_union_iff {branches : List Validator} :
    Rule root P (.object ((Validator.union branches).schemaMembers shelf key)) inst ↔
      ∃ branch ∈ branches, P (.object (branch.schemaMembers shelf key)) inst := by
  rw [rule_bare_iff rfl]
  constructor
  · intro hmeets
    obtain ⟨schema, hschema, hp⟩ := hmeets.anyOf _ rfl
    obtain ⟨branch, hbranch, rfl⟩ := mem_schemaList.1 hschema
    exact ⟨branch, hbranch, hp⟩
  · rintro ⟨branch, hbranch, hp⟩
    refine ⟨rfl, ?_, by simp [schemaMembers, Keyed.find?], by simp [schemaMembers, Keyed.find?],
      by simp [schemaMembers, Keyed.find?]⟩
    rintro schemas ⟨⟩
    exact ⟨_, mem_schemaList.2 ⟨branch, hbranch, rfl⟩, hp⟩

/-- Only arrays have the type of arrays. -/
private theorem hasType_array_iff : hasType inst "array" = true ↔ ∃ items, inst = .array items := by
  cases inst <;> simp [hasType]

/-- Only objects have the type of objects. -/
private theorem hasType_object_iff :
    hasType inst "object" = true ↔ ∃ present, inst = .object present := by
  cases inst <;> simp [hasType]

/-- The schema of an array asks for a sequence of what its item schema says. -/
theorem rule_array_iff {item : Validator} :
    Rule root P (.object ((Validator.array item).schemaMembers shelf key)) inst ↔
      ∃ items, inst = .array items ∧ ∀ x ∈ items, P (.object (item.schemaMembers shelf key)) x := by
  rw [rule_bare_iff rfl]
  constructor
  · intro hmeets
    have htype : hasType inst "array" = true := by
      have := hmeets.flat
      simp_all [checkFlat, checkType, schemaMembers, Keyed.find?]
    obtain ⟨items, rfl⟩ := hasType_array_iff.1 htype
    exact ⟨items, rfl, hmeets.items _ _ rfl rfl⟩
  · rintro ⟨items, rfl, hitems⟩
    refine ⟨rfl, by simp [schemaMembers, Keyed.find?], by simp [schemaMembers, Keyed.find?],
      by simp [schemaMembers, Keyed.find?], ?_⟩
    rintro schema elements ⟨⟩ ⟨⟩
    exact hitems

/-- The schema of a record asks for an object of what its value schema says. -/
theorem rule_record_iff {value : Validator} :
    Rule root P (.object ((Validator.record value).schemaMembers shelf key)) inst ↔
      ∃ present, inst = .object present ∧
        ∀ member ∈ present, P (.object (value.schemaMembers shelf key)) member.2 := by
  rw [rule_bare_iff rfl]
  constructor
  · intro hmeets
    have htype : hasType inst "object" = true := by
      have := hmeets.flat
      simp_all [checkFlat, checkType, schemaMembers, Keyed.find?]
    obtain ⟨present, rfl⟩ := hasType_object_iff.1 htype
    refine ⟨present, rfl, fun member hmember => ?_⟩
    exact hmeets.additional _ _ rfl rfl member hmember List.not_mem_nil
  · rintro ⟨present, rfl, hpresent⟩
    refine ⟨rfl, by simp [schemaMembers, Keyed.find?], by simp [schemaMembers, Keyed.find?],
      ?_, by simp [schemaMembers, Keyed.find?]⟩
    rintro schema found ⟨⟩ ⟨⟩ member hmember -
    exact hpresent member hmember

section Object

variable {fields : List (String × Validator)} {closed : Bool}

/-- The schema of an object asks nothing of other keywords. -/
private theorem find?_object_eq_none {keyword : String}
    (h : keyword ∉ ["additionalProperties", "properties", "required", "type"]) :
    Keyed.find? keyword ((Validator.object fields closed).schemaMembers shelf key) = none := by
  simp only [List.mem_cons, List.not_mem_nil, or_false, not_or] at h
  obtain ⟨hadditional, hproperties, hrequired, htype⟩ := h
  cases closed <;> cases hfields : requiredFields shelf fields <;>
    simp [schemaMembers, hfields, Keyed.find?, Ne.symm hadditional, Ne.symm hproperties,
      Ne.symm hrequired, Ne.symm htype]

/-- The schema of an object lists its fields. -/
private theorem find?_object_properties :
    Keyed.find? "properties" ((Validator.object fields closed).schemaMembers shelf key) =
      some (.object (schemaFields shelf key fields)) := by
  cases closed <;> simp [schemaMembers, Keyed.find?]

/-- The schema of a closed object takes no other members. -/
private theorem find?_object_additional :
    Keyed.find? "additionalProperties"
        ((Validator.object fields closed).schemaMembers shelf key) =
      if closed then some (.bool false) else none := by
  cases closed <;> cases hfields : requiredFields shelf fields <;>
    simp [schemaMembers, hfields, Keyed.find?]

/-- The schema of an object asks for an object that has the required members. -/
private theorem checkFlat_object_iff :
    checkFlat ((Validator.object fields closed).schemaMembers shelf key) inst = true ↔
      ∃ present, inst = .object present ∧
        ∀ name ∈ requiredFields shelf fields, Keyed.contains name present = true := by
  have htype : Keyed.find? "type" ((Validator.object fields closed).schemaMembers shelf key) =
      some (.string "object") := by
    cases closed <;> cases hfields : requiredFields shelf fields <;>
      simp [schemaMembers, hfields, Keyed.find?]
  have hrequired : ∀ present,
      checkRequired ((Validator.object fields closed).schemaMembers shelf key)
          (.object present) = true ↔
        ∀ name ∈ requiredFields shelf fields, Keyed.contains name present = true := by
    intro present
    cases closed <;> cases hfields : requiredFields shelf fields <;>
      simp [checkRequired, schemaMembers, hfields, Keyed.find?, Json.strings, Json.string?]
  rw [checkFlat, checkType, htype, checkConst, checkEnum, find?_object_eq_none (by simp),
    find?_object_eq_none (by simp)]
  simp only [Bool.and_true, Bool.and_eq_true, hasType_object_iff]
  constructor
  · rintro ⟨⟨present, rfl⟩, h⟩
    exact ⟨present, rfl, (hrequired present).1 h⟩
  · rintro ⟨present, rfl, h⟩
    exact ⟨⟨present, rfl⟩, (hrequired present).2 h⟩

/-- The schema of an object asks for an object with the required members, whose
other members are as the fields say, and, if closed, for no further members. -/
theorem rule_object_iff :
    Rule root P (.object ((Validator.object fields closed).schemaMembers shelf key)) inst ↔
      ∃ present, inst = .object present ∧
        (∀ name ∈ requiredFields shelf fields, Keyed.contains name present = true) ∧
        (∀ field ∈ fields, ∀ value, Keyed.find? field.1 present = some value →
          P (.object (field.2.schemaMembers shelf key)) value) ∧
        (closed = true → ∀ member ∈ present, member.1 ∉ Keyed.keys fields →
          P (.bool false) member.2) := by
  have hnames : listedNames ((Validator.object fields closed).schemaMembers shelf key) =
      Keyed.keys fields := by
    simp only [listedNames, find?_object_properties, keys_schemaFields]
  rw [rule_bare_iff (find?_object_eq_none (by simp))]
  constructor
  · intro hmeets
    obtain ⟨present, rfl, hrequired⟩ := checkFlat_object_iff.1 hmeets.flat
    refine ⟨present, rfl, hrequired, fun field hfield value hvalue => ?_, ?_⟩
    · exact hmeets.properties _ _ find?_object_properties rfl _
        (mem_schemaFields.2 ⟨field, hfield, rfl⟩) value hvalue
    · rintro rfl member hmember hunlisted
      exact hmeets.additional _ _ find?_object_additional rfl member hmember (hnames ▸ hunlisted)
  · rintro ⟨present, rfl, hrequired, hfields, hclosed⟩
    refine ⟨checkFlat_object_iff.2 ⟨present, rfl, hrequired⟩, ?_, ?_, ?_, ?_⟩
    · simp [find?_object_eq_none]
    · rintro listed found hlisted ⟨⟩ property hproperty value hvalue
      rw [find?_object_properties] at hlisted
      cases hlisted
      obtain ⟨field, hfield, rfl⟩ := mem_schemaFields.1 hproperty
      exact hfields field hfield value hvalue
    · rintro schema found hschema ⟨⟩ member hmember hunlisted
      rw [find?_object_additional] at hschema
      split at hschema
      · cases hschema
        exact hclosed ‹_› member hmember (hnames ▸ hunlisted)
      · cases hschema
    · simp [find?_object_eq_none]

end Object

end Rendered

end SchemaSets.Draft07
