import Mathlib.Data.List.Forall2
import SchemaSets.Proofs.Fits
import SchemaSets.Proofs.Links

/-!
# The parts of a check

A node that asks for a kind of value decides first whether the slot holds one
(`Validator.asks?`, `Validator.admits`).  If it does, what is left are its parts: an object looks
into the attribute of each of its fields, an array into its items and a record into the values
under its keys (`Validator.parts`).  The three go through their parts in the same way, one after
the other and each as if it were checked alone, so they are one traversal (`walkParts`) and
`walk_of_asks` is their common equation.

What holds of a walk can then be shown by an induction with one case for all nodes that do
not hand their slot on to another node as a whole (`chain_induction`, `walk_descent`).
-/

namespace SchemaSets

/-! ## Along a walk -/

/-- Induction along a walk: a case for each way in which it goes on.  Lists are
not walked through in the cases; what holds is known of each of their parts. -/
@[elab_as_elim]
theorem walk_induction (shelf : Shelf) {motive : List String → Validator → Slot → Prop}
    (leaf : ∀ chain v slot, v.IsLeaf → motive chain v slot)
    (object : ∀ chain fields closed members,
      (∀ field ∈ fields, motive [] field.2 (Keyed.find? field.1 members)) →
        motive chain (.object fields closed) (some (.object members)))
    (noObject : ∀ chain fields closed slot, (∀ members, slot ≠ some (.object members)) →
      motive chain (.object fields closed) slot)
    (array : ∀ chain item items, (∀ x ∈ items, motive [] item (some x)) →
      motive chain (.array item) (some (.array items)))
    (noArray : ∀ chain item slot, (∀ items, slot ≠ some (.array items)) →
      motive chain (.array item) slot)
    (record : ∀ chain value members, (∀ member ∈ members, motive [] value (some member.2)) →
      motive chain (.record value) (some (.object members)))
    (noRecord : ∀ chain value slot, (∀ members, slot ≠ some (.object members)) →
      motive chain (.record value) slot)
    (union : ∀ chain branches slot, (∀ branch ∈ branches, motive chain branch slot) →
      motive chain (.union branches) slot)
    (lazy : ∀ chain label child slot, motive chain child slot →
      motive chain (.lazy label child) slot)
    (cycle : ∀ chain target owner registry slot, target ∈ chain →
      motive chain (.reference target owner registry) slot)
    (broken : ∀ chain target owner registry slot cause, target ∉ chain →
      shelf.resolve registry target owner = .error cause →
        motive chain (.reference target owner registry) slot)
    (follow : ∀ chain target owner registry slot entry, target ∉ chain →
      shelf.resolve registry target owner = .ok entry →
        motive (target :: chain) entry.validator slot →
          motive chain (.reference target owner registry) slot)
    (absent : ∀ chain inner, motive chain (.optional inner) none)
    (present : ∀ chain inner x, motive chain inner (some x) →
      motive chain (.optional inner) (some x))
    (chain : List String) (v : Validator) (slot : Slot) : motive chain v slot := by
  -- the four list traversals carry the motive for every part of their list
  refine walk.induct shelf motive
    (fun chain branches slot => ∀ branch ∈ branches, motive chain branch slot)
    (fun value members => ∀ member ∈ members, motive [] value (some member.2))
    (fun item _ items => ∀ x ∈ items, motive [] item (some x))
    (fun fields members => ∀ field ∈ fields, motive [] field.2 (Keyed.find? field.1 members))
    (fun chain slot => leaf chain .any slot trivial)
    (fun chain slot text => leaf chain (.literal text) slot trivial)
    (fun chain slot => leaf chain .boolean slot trivial)
    (fun chain slot => leaf chain .string slot trivial)
    (fun chain slot => leaf chain .number slot trivial)
    (fun chain slot values => leaf chain (.enumeration values) slot trivial)
    (fun chain slot args returns => leaf chain (.function args returns) slot trivial)
    (fun chain fields closed members ih => object chain fields closed members ih)
    (fun chain fields closed slot h => noObject chain fields closed slot h)
    (fun chain item items ih => array chain item items ih)
    (fun chain item slot h => noArray chain item slot h)
    (fun chain value members ih => record chain value members ih)
    (fun chain value slot h => noRecord chain value slot h)
    (fun chain slot branches ih => union chain branches slot ih)
    (fun chain slot label child ih => lazy chain label child slot ih)
    (fun chain slot target owner registry h => cycle chain target owner registry slot h)
    (fun chain slot target owner registry hnew cause h =>
      broken chain target owner registry slot cause hnew h)
    (fun chain slot target owner registry hnew entry h ih =>
      follow chain target owner registry slot entry hnew h ih)
    (fun chain inner => absent chain inner)
    (fun chain inner x ih => present chain inner x ih)
    (fun _ _ => List.forall_mem_nil _)
    (fun _ _ _ _ hfirst hrest => List.forall_mem_cons.2 ⟨hfirst, hrest⟩)
    (fun _ => List.forall_mem_nil _)
    (fun _ _ _ _ hfirst hrest => List.forall_mem_cons.2 ⟨hfirst, hrest⟩)
    (fun _ _ => List.forall_mem_nil _)
    (fun _ _ _ _ hfirst hrest => List.forall_mem_cons.2 ⟨hfirst, hrest⟩)
    (fun _ => List.forall_mem_nil _)
    (fun _ _ _ _ hfirst hrest => List.forall_mem_cons.2 ⟨hfirst, hrest⟩)
    chain v slot

/-! ## Single steps -/

section Steps

variable {shelf : Shelf} {chain : List String} {slot : Slot}

theorem walk_noObject {fields : List (String × Validator)} {closed : Bool}
    (h : ∀ members, slot ≠ some (.object members)) :
    walk shelf chain (.object fields closed) slot = .ok [Issue.here .object slot] :=
  walk.eq_9 shelf chain slot fields closed h

theorem walk_noArray {item : Validator} (h : ∀ items, slot ≠ some (.array items)) :
    walk shelf chain (.array item) slot = .ok [Issue.here .array slot] :=
  walk.eq_11 shelf chain slot item h

theorem walk_noRecord {value : Validator} (h : ∀ members, slot ≠ some (.object members)) :
    walk shelf chain (.record value) slot = .ok [Issue.here .record slot] :=
  walk.eq_13 shelf chain slot value h

variable {target owner : String} {registry : Handle}

/-- A name of the chain is reported and not followed. -/
theorem walk_cycle (h : target ∈ chain) :
    walk shelf chain (.reference target owner registry) slot =
      .ok [⟨[], .reference target, .referenceCycle⟩] := by
  rw [walk, dif_pos h]

/-- A link that leads nowhere ends the walk. -/
theorem walk_broken {cause : ReferenceError} (hnew : target ∉ chain)
    (h : shelf.resolve registry target owner = .error cause) :
    walk shelf chain (.reference target owner registry) slot = .error cause := by
  rw [walk, dif_neg hnew]
  split <;> simp_all

/-- A link is followed to the entry it names, which joins the chain. -/
theorem walk_follow {entry : Entry} (hnew : target ∉ chain)
    (h : shelf.resolve registry target owner = .ok entry) :
    walk shelf chain (.reference target owner registry) slot =
      walk shelf (target :: chain) entry.validator slot := by
  rw [walk, dif_neg hnew]
  split <;> simp_all

end Steps

/-! ## Parts -/

/-- A check one level down: the step to a slot, and the validator that it is checked against. -/
structure Part where
  segment : Segment
  validator : Validator
  slot : Slot

/-- The value of a member is no larger than all members together. -/
theorem Value.size_le_sizeMembers_of_mem {member : String × Value}
    {members : List (String × Value)} (h : member ∈ members) :
    member.2.size ≤ Value.sizeMembers members := by
  induction members with
  | nil => cases h
  | cons first rest ih =>
      rw [Value.sizeMembers]
      rcases List.mem_cons.1 h with rfl | hrest
      · exact Nat.le_add_right _ _
      · exact Nat.le_add_left_of_le (ih hrest)

namespace Validator

/-- What a node asks for by itself. -/
def asks? : Validator → Option Expectation
  | .literal text => some (.literal text)
  | .boolean => some .boolean
  | .string => some .string
  | .number => some .number
  | .enumeration values => some (.oneOf values)
  | .object _ _ => some .object
  | .array _ => some .array
  | .record _ => some .record
  | .function _ _ => some .function
  | .any | .union _ | .lazy _ _ | .reference _ _ _ | .optional _ => none

/-- Whether a slot holds what a node asks for, whatever may be amiss inside it. -/
def admits : Validator → Slot → Bool
  | .object _ _, some (.object _) => true
  | .array _, some (.array _) => true
  | .record _, some (.object _) => true
  | v, slot => v.leafTakes slot

/-- The checks one level below a node. -/
def parts : Validator → Slot → List Part
  | .object fields _, some (.object members) =>
    fields.map fun field => ⟨.field field.1, field.2, Keyed.find? field.1 members⟩
  | .array item, some (.array items) =>
    items.zipIdx.map fun numbered => ⟨.index numbered.2, item, some numbered.1⟩
  | .record value, some (.object members) =>
    members.map fun member => ⟨.key member.1, value, some member.2⟩
  | _, _ => []

/-- The issues of a node that lie below it and in no part: a closed object refuses what it does
not list. -/
def strays : Validator → Slot → List Issue
  | .object fields true, some (.object members) => unlisted fields members
  | _, _ => []

section Parts

variable {slot : Slot} {part : Part}

/-- The parts of an object are the attributes of its fields, present or not. -/
theorem mem_parts_object_iff {fields : List (String × Validator)} {closed : Bool} :
    part ∈ (object fields closed).parts slot ↔ ∃ members, slot = some (.object members) ∧
      ∃ field ∈ fields, part = ⟨.field field.1, field.2, Keyed.find? field.1 members⟩ := by
  rcases slot with _ | (_ | _ | _ | _ | _ | members | _) <;> simp [parts, eq_comm]

/-- The parts of an array are its items. -/
theorem mem_parts_array_iff {item : Validator} :
    part ∈ (array item).parts slot ↔ ∃ items, slot = some (.array items) ∧
      ∃ position x, items[position]? = some x ∧ part = ⟨.index position, item, some x⟩ := by
  rcases slot with _ | (_ | _ | _ | _ | items | _ | _)
  case some.array =>
    simp only [parts, List.mem_map, Prod.exists, List.mk_mem_zipIdx_iff_getElem?]
    constructor
    · rintro ⟨x, position, hx, rfl⟩
      exact ⟨items, rfl, position, x, hx, rfl⟩
    · rintro ⟨_, hitems, position, x, hx, rfl⟩
      cases hitems
      exact ⟨x, position, hx, rfl⟩
  all_goals simp [parts]

/-- The parts of a record are the values under its keys. -/
theorem mem_parts_record_iff {value : Validator} :
    part ∈ (record value).parts slot ↔ ∃ members, slot = some (.object members) ∧
      ∃ member ∈ members, part = ⟨.key member.1, value, some member.2⟩ := by
  rcases slot with _ | (_ | _ | _ | _ | _ | members | _) <;> simp [parts, eq_comm]

/-- A leaf has no parts. -/
theorem parts_of_leaf {v : Validator} (hleaf : v.IsLeaf) : v.parts slot = [] := by
  cases v with
  | literal | boolean | string | number | enumeration | function | any => rfl
  | _ => exact hleaf.elim

/-- The parts of a node are checked against its children. -/
theorem mem_children_of_mem_parts {v : Validator} (h : part ∈ v.parts slot) :
    part.validator ∈ v.children := by
  cases v with
  | object fields closed =>
      obtain ⟨members, -, field, hfield, rfl⟩ := mem_parts_object_iff.1 h
      exact List.mem_map_of_mem hfield
  | array item =>
      obtain ⟨items, -, position, x, -, rfl⟩ := mem_parts_array_iff.1 h
      exact List.mem_singleton_self _
  | record value =>
      obtain ⟨members, -, member, -, rfl⟩ := mem_parts_record_iff.1 h
      exact List.mem_singleton_self _
  | _ => cases h

/-- The links of a part are links of the node. -/
theorem mem_links_of_mem_parts {v : Validator} (h : part ∈ v.parts slot) {link : Link}
    (hlink : link ∈ part.validator.links) : link ∈ v.links := by
  cases v with
  | object fields closed =>
      obtain ⟨members, -, field, hfield, rfl⟩ := mem_parts_object_iff.1 h
      exact mem_linksOfFields.2 ⟨field, hfield, hlink⟩
  | array item =>
      obtain ⟨items, -, position, x, -, rfl⟩ := mem_parts_array_iff.1 h
      exact hlink
  | record value =>
      obtain ⟨members, -, member, -, rfl⟩ := mem_parts_record_iff.1 h
      exact hlink
  | _ => cases h

/-- A node that has parts asks for something and finds it. -/
theorem asks_of_mem_parts {v : Validator} (h : part ∈ v.parts slot) :
    (∃ expected, v.asks? = some expected) ∧ v.admits slot = true := by
  cases v with
  | object fields closed =>
      obtain ⟨members, rfl, -⟩ := mem_parts_object_iff.1 h
      exact ⟨⟨_, rfl⟩, rfl⟩
  | array item =>
      obtain ⟨items, rfl, -⟩ := mem_parts_array_iff.1 h
      exact ⟨⟨_, rfl⟩, rfl⟩
  | record value =>
      obtain ⟨members, rfl, -⟩ := mem_parts_record_iff.1 h
      exact ⟨⟨_, rfl⟩, rfl⟩
  | _ => cases h

/-- Only a closed object has strays: the members that it does not list. -/
theorem mem_strays_iff {v : Validator} {issue : Issue} :
    issue ∈ v.strays slot ↔ ∃ fields members, v = .object fields true ∧
      slot = some (.object members) ∧ ∃ member ∈ members, member.1 ∉ Keyed.keys fields ∧
        issue = ⟨[.field member.1], .noSuchAttribute, .unexpectedAttribute⟩ := by
  constructor
  · intro h
    cases v with
    | object fields closed =>
        rcases slot with _ | (_ | _ | _ | _ | _ | members | _)
        case some.object =>
          cases closed with
          | false => cases h
          | true =>
              obtain ⟨member, hmember, rfl⟩ := List.mem_map.1 h
              obtain ⟨hmember, hnew⟩ := List.mem_filter.1 hmember
              refine ⟨fields, members, rfl, rfl, member, hmember, ?_, rfl⟩
              rw [← Keyed.contains_iff]
              simpa using hnew
        all_goals cases closed <;> cases h
    | _ => cases h
  · rintro ⟨fields, members, rfl, rfl, member, hmember, hnew, rfl⟩
    rw [← Keyed.contains_iff] at hnew
    exact List.mem_map.2 ⟨member, List.mem_filter.2 ⟨hmember, by simpa using hnew⟩, rfl⟩

/-- What a part holds is smaller than what it is a part of. -/
theorem size_lt_of_mem_parts {v : Validator} (h : part ∈ v.parts slot) :
    part.slot.size < slot.size := by
  have hobject : ∀ members, Value.sizeMembers members < Slot.size (some (.object members)) :=
    fun members => by simp only [Slot.size, Value.size]; omega
  have harray : ∀ items, Value.sizeItems items < Slot.size (some (.array items)) :=
    fun items => by simp only [Slot.size, Value.size]; omega
  cases v with
  | object fields closed =>
      obtain ⟨members, rfl, field, -, rfl⟩ := mem_parts_object_iff.1 h
      exact Nat.lt_of_le_of_lt (Slot.size_find?_le _ _) (hobject members)
  | array item =>
      obtain ⟨items, rfl, position, x, hx, rfl⟩ := mem_parts_array_iff.1 h
      exact Nat.lt_of_le_of_lt (Value.size_le_sizeItems (List.mem_of_getElem? hx)) (harray items)
  | record value =>
      obtain ⟨members, rfl, member, hmember, rfl⟩ := mem_parts_record_iff.1 h
      exact Nat.lt_of_le_of_lt (Value.size_le_sizeMembers_of_mem hmember) (hobject members)
  | _ => cases h

end Parts

end Validator

/-! ## The traversal of parts -/

/-- The issues of all parts, or the first error among them. -/
def walkParts (shelf : Shelf) : List Part → Except ReferenceError (List Issue)
  | [] => .ok []
  | part :: rest => do
    let found ← walk shelf [] part.validator part.slot
    let more ← walkParts shelf rest
    .ok (found.map (Issue.under part.segment) ++ more)

/-- A part with the rest comes to its end where both do, and has the issues of both. -/
theorem gather_eq_ok_iff {first rest : Except ReferenceError (List Issue)}
    {place : Issue → Issue} {issues : List Issue} :
    (do
      let found ← first
      let more ← rest
      .ok (found.map place ++ more)) = .ok issues ↔
      ∃ found more, first = .ok found ∧ rest = .ok more ∧ found.map place ++ more = issues := by
  constructor
  · intro h
    obtain ⟨found, hfirst, h⟩ := bind_eq_ok_iff.1 h
    obtain ⟨more, hrest, h⟩ := bind_eq_ok_iff.1 h
    exact ⟨found, more, hfirst, hrest, Except.ok.inj h⟩
  · rintro ⟨found, more, rfl, rfl, rfl⟩
    rfl

section Ends

variable {shelf : Shelf} {parts : List Part} {issues : List Issue}

/-- Where all parts come to their ends, each of them does. -/
theorem exists_of_walkParts_eq_ok (hwalk : walkParts shelf parts = .ok issues) {part : Part}
    (hpart : part ∈ parts) :
    ∃ found, walk shelf [] part.validator part.slot = .ok found ∧
      ∀ inner ∈ found, inner.under part.segment ∈ issues := by
  induction parts generalizing issues with
  | nil => cases hpart
  | cons first rest ih =>
      rw [walkParts, gather_eq_ok_iff] at hwalk
      obtain ⟨found, more, hfound, hmore, rfl⟩ := hwalk
      rcases List.mem_cons.1 hpart with rfl | hlater
      · refine ⟨found, hfound, fun inner hinner => ?_⟩
        exact List.mem_append_left _ (List.mem_map_of_mem hinner)
      · obtain ⟨found, hfound, hwithin⟩ := ih hmore hlater
        exact ⟨found, hfound, fun inner hinner => List.mem_append_right _ (hwithin inner hinner)⟩

/-- Every issue among parts is one of a part. -/
theorem exists_of_mem_walkParts (hwalk : walkParts shelf parts = .ok issues) {issue : Issue}
    (hissue : issue ∈ issues) :
    ∃ part ∈ parts, ∃ found, walk shelf [] part.validator part.slot = .ok found ∧
      ∃ inner ∈ found, inner.under part.segment = issue := by
  induction parts generalizing issues with
  | nil =>
      rw [walkParts] at hwalk
      cases hwalk
      cases hissue
  | cons first rest ih =>
      rw [walkParts, gather_eq_ok_iff] at hwalk
      obtain ⟨found, more, hfound, hmore, rfl⟩ := hwalk
      rcases List.mem_append.1 hissue with hfirst | hlater
      · exact ⟨first, List.mem_cons_self, found, hfound, List.mem_map.1 hfirst⟩
      · obtain ⟨part, hpart, hwithin⟩ := ih hmore hlater
        exact ⟨part, List.mem_cons_of_mem _ hpart, hwithin⟩

/-- Where all parts come to their ends, there is no issue among them exactly if none has one. -/
theorem walkParts_eq_nil_iff {Fits : Part → Prop} (hwalk : walkParts shelf parts = .ok issues)
    (hfits : ∀ part ∈ parts, ∀ found, walk shelf [] part.validator part.slot = .ok found →
      (found = [] ↔ Fits part)) :
    issues = [] ↔ ∀ part ∈ parts, Fits part := by
  constructor
  · rintro rfl part hpart
    obtain ⟨found, hfound, hwithin⟩ := exists_of_walkParts_eq_ok hwalk hpart
    refine (hfits part hpart found hfound).1 (List.eq_nil_iff_forall_not_mem.2 fun inner hinner => ?_)
    exact List.not_mem_nil (hwithin inner hinner)
  · intro hall
    refine List.eq_nil_iff_forall_not_mem.2 fun issue hissue => ?_
    obtain ⟨part, hpart, found, hfound, inner, hinner, -⟩ := exists_of_mem_walkParts hwalk hissue
    rw [(hfits part hpart found hfound).2 (hall part hpart)] at hinner
    exact List.not_mem_nil hinner

/-- If the traversal is broken off, it is so at a part. -/
theorem exists_of_walkParts_eq_error {cause : ReferenceError}
    (hwalk : walkParts shelf parts = .error cause) :
    ∃ part ∈ parts, walk shelf [] part.validator part.slot = .error cause := by
  induction parts with
  | nil => cases hwalk
  | cons first rest ih =>
      rw [walkParts, bind_eq_error_iff] at hwalk
      rcases hwalk with hfirst | ⟨found, -, hwalk⟩
      · exact ⟨first, List.mem_cons_self, hfirst⟩
      · rcases bind_eq_error_iff.1 hwalk with hlater | ⟨more, -, hwalk⟩
        · obtain ⟨part, hpart, hbroken⟩ := ih hlater
          exact ⟨part, List.mem_cons_of_mem _ hpart, hbroken⟩
        · cases hwalk

end Ends

section Equations

variable {shelf : Shelf}

/-- Fields are traversed as parts. -/
theorem walkFields_eq_walkParts (fields : List (String × Validator))
    (members : List (String × Value)) :
    walkFields shelf fields members = walkParts shelf
      (fields.map fun field => ⟨.field field.1, field.2, Keyed.find? field.1 members⟩) := by
  induction fields with
  | nil => rw [walkFields, List.map_nil, walkParts]
  | cons field rest ih =>
      obtain ⟨name, v⟩ := field
      rw [walkFields, List.map_cons, walkParts, ih]

/-- Items are traversed as parts. -/
theorem walkItems_eq_walkParts (item : Validator) (position : Nat) (items : List Value) :
    walkItems shelf item position items = walkParts shelf
      ((items.zipIdx position).map fun numbered =>
        ⟨.index numbered.2, item, some numbered.1⟩) := by
  induction items generalizing position with
  | nil => rw [walkItems, List.zipIdx_nil, List.map_nil, walkParts]
  | cons x rest ih => rw [walkItems, List.zipIdx_cons, List.map_cons, walkParts, ih]

/-- The values of a record are traversed as parts. -/
theorem walkMembers_eq_walkParts (value : Validator) (members : List (String × Value)) :
    walkMembers shelf value members = walkParts shelf
      (members.map fun member => ⟨.key member.1, value, some member.2⟩) := by
  induction members with
  | nil => rw [walkMembers, List.map_nil, walkParts]
  | cons member rest ih =>
      obtain ⟨key, x⟩ := member
      rw [walkMembers, List.map_cons, walkParts, ih]

/-- A leaf that asks for something is checked on the spot. -/
theorem walk_leaf_of_asks {chain : List String} {v : Validator} {slot : Slot}
    {expected : Expectation} (hleaf : v.IsLeaf) (hasks : v.asks? = some expected) :
    walk shelf chain v slot = .ok (checked (v.leafTakes slot) expected slot) := by
  cases v with
  | literal | boolean | string | number | enumeration | function =>
      cases hasks
      rw [walk, Validator.leafTakes]
  | any => cases hasks
  | _ => exact hleaf.elim

/-- A node that asks for something either finds it, and the issues are those of its parts and
its strays, or reports what it finds instead. -/
theorem walk_of_asks {chain : List String} {v : Validator} {slot : Slot} {expected : Expectation}
    (hasks : v.asks? = some expected) :
    walk shelf chain v slot =
      if v.admits slot then (walkParts shelf (v.parts slot)).map (· ++ v.strays slot)
      else .ok [Issue.here expected slot] := by
  have hplain : ∀ outcome : Except ReferenceError (List Issue),
      outcome.map (· ++ []) = outcome := by
    rintro (cause | issues) <;> simp [Except.map]
  cases v with
  | any | union | lazy | reference | optional => cases hasks
  | literal | boolean | string | number | enumeration | function =>
      rw [walk_leaf_of_asks (by trivial) hasks]
      simp only [checked, Validator.admits, Validator.parts, Validator.strays, walkParts, hplain]
      split <;> rfl
  | object fields closed =>
      cases hasks
      rcases slot with _ | (_ | _ | _ | _ | _ | members | _)
      case some.object =>
        rw [walk, walkFields_eq_walkParts]
        cases closed <;> rfl
      all_goals exact walk_noObject (by simp)
  | array item =>
      cases hasks
      rcases slot with _ | (_ | _ | _ | _ | items | _ | _)
      case some.array =>
        rw [walk, walkItems_eq_walkParts]
        exact (hplain _).symm
      all_goals exact walk_noArray (by simp)
  | record value =>
      cases hasks
      rcases slot with _ | (_ | _ | _ | _ | _ | members | _)
      case some.object =>
        rw [walk, walkMembers_eq_walkParts]
        exact (hplain _).symm
      all_goals exact walk_noRecord (by simp)

/-- Where a node finds what it asks for, its issues are those of its parts and then its strays. -/
theorem walk_eq_ok_iff_of_admits {chain : List String} {v : Validator} {slot : Slot}
    {expected : Expectation} {issues : List Issue} (hasks : v.asks? = some expected)
    (hadmits : v.admits slot = true) :
    walk shelf chain v slot = .ok issues ↔
      ∃ found, walkParts shelf (v.parts slot) = .ok found ∧ found ++ v.strays slot = issues := by
  rw [walk_of_asks hasks, if_pos hadmits]
  cases walkParts shelf (v.parts slot) with
  | error cause => simp [Except.map]
  | ok found => simp [Except.map]

/-- A validator that takes whatever it is given has no issues. -/
theorem walk_any (chain : List String) (slot : Slot) : walk shelf chain .any slot = .ok [] := by
  rw [walk]

end Equations

/-! ## What a node does with the slot -/

/-- A validator that hands a slot on as a whole. -/
def Validator.PassesOn : Validator → Prop
  | .union _ | .lazy _ _ | .reference _ _ _ | .optional _ => True
  | _ => False

/-- A leaf is done with its slot. -/
theorem Validator.not_passesOn_of_leaf {v : Validator} (hleaf : v.IsLeaf) : ¬v.PassesOn := by
  cases v with
  | literal | boolean | string | number | enumeration | function | any => exact id
  | _ => exact hleaf.elim

/-- What does not hand the slot on takes anything, or asks for something. -/
theorem Validator.any_or_asks {v : Validator} (h : ¬v.PassesOn) :
    v = .any ∨ ∃ expected, v.asks? = some expected := by
  cases v with
  | any => exact .inl rfl
  | union | lazy | reference | optional => exact absurd trivial h
  | _ => exact .inr ⟨_, rfl⟩

/-- A mark hands the slot on, so what does not is not marked. -/
theorem Element.isOptional_eq_false_of_settled {policy : UnknownAttributes} {owner : String}
    {registry : Handle} {e : Element} (h : ¬(e.compile policy owner registry).PassesOn) :
    e.isOptional = false := by
  rw [compile_eq_wrap] at h
  cases hmark : e.isOptional with
  | true =>
      rw [hmark] at h
      exact absurd trivial h
  | false => rfl

/-- What does not hand the slot on does not look at the chain. -/
theorem walk_settled (shelf : Shelf) {v : Validator} (h : ¬v.PassesOn) (chain other : List String)
    (slot : Slot) : walk shelf chain v slot = walk shelf other v slot := by
  rcases Validator.any_or_asks h with rfl | ⟨expected, hasks⟩
  · rw [walk_any, walk_any]
  · rw [walk_of_asks hasks, walk_of_asks hasks]

section Induction

variable (shelf : Shelf) {motive : List String → Validator → Slot → Prop}

/-- Induction along a walk, by what becomes of the slot: a node hands it on as a whole, or is
done with it once its parts are. -/
@[elab_as_elim]
theorem chain_induction
    (settled : ∀ chain v slot, ¬v.PassesOn →
      (∀ part ∈ v.parts slot, motive [] part.validator part.slot) → motive chain v slot)
    (union : ∀ chain branches slot, (∀ branch ∈ branches, motive chain branch slot) →
      motive chain (.union branches) slot)
    (lazy : ∀ chain label child slot, motive chain child slot →
      motive chain (.lazy label child) slot)
    (cycle : ∀ chain target owner registry slot, target ∈ chain →
      motive chain (.reference target owner registry) slot)
    (broken : ∀ chain target owner registry slot cause, target ∉ chain →
      shelf.resolve registry target owner = .error cause →
        motive chain (.reference target owner registry) slot)
    (follow : ∀ chain target owner registry slot entry, target ∉ chain →
      shelf.resolve registry target owner = .ok entry →
        motive (target :: chain) entry.validator slot →
          motive chain (.reference target owner registry) slot)
    (absent : ∀ chain inner, motive chain (.optional inner) none)
    (present : ∀ chain inner x, motive chain inner (some x) →
      motive chain (.optional inner) (some x))
    (chain : List String) (v : Validator) (slot : Slot) : motive chain v slot := by
  induction chain, v, slot using walk_induction shelf with
  | leaf chain v slot hleaf =>
      have hnone : v.parts slot = [] := Validator.parts_of_leaf hleaf
      exact settled chain v slot (Validator.not_passesOn_of_leaf hleaf) (by simp [hnone])
  | object chain fields closed members ih =>
      refine settled _ _ _ id fun part hpart => ?_
      obtain ⟨_, hslot, field, hfield, rfl⟩ := Validator.mem_parts_object_iff.1 hpart
      cases hslot
      exact ih field hfield
  | noObject chain fields closed slot h =>
      refine settled _ _ _ id fun part hpart => ?_
      obtain ⟨members, hslot, -⟩ := Validator.mem_parts_object_iff.1 hpart
      exact absurd hslot (h members)
  | array chain item items ih =>
      refine settled _ _ _ id fun part hpart => ?_
      obtain ⟨_, hslot, position, x, hx, rfl⟩ := Validator.mem_parts_array_iff.1 hpart
      cases hslot
      exact ih x (List.mem_of_getElem? hx)
  | noArray chain item slot h =>
      refine settled _ _ _ id fun part hpart => ?_
      obtain ⟨items, hslot, -⟩ := Validator.mem_parts_array_iff.1 hpart
      exact absurd hslot (h items)
  | record chain value members ih =>
      refine settled _ _ _ id fun part hpart => ?_
      obtain ⟨_, hslot, member, hmember, rfl⟩ := Validator.mem_parts_record_iff.1 hpart
      cases hslot
      exact ih member hmember
  | noRecord chain value slot h =>
      refine settled _ _ _ id fun part hpart => ?_
      obtain ⟨members, hslot, -⟩ := Validator.mem_parts_record_iff.1 hpart
      exact absurd hslot (h members)
  | union chain branches slot ih => exact union chain branches slot ih
  | lazy chain label child slot ih => exact lazy chain label child slot ih
  | cycle chain target owner registry slot h => exact cycle chain target owner registry slot h
  | broken chain target owner registry slot cause hnew h =>
      exact broken chain target owner registry slot cause hnew h
  | follow chain target owner registry slot entry hnew h ih =>
      exact follow chain target owner registry slot entry hnew h ih
  | absent chain inner => exact absent chain inner
  | present chain inner x ih => exact present chain inner x ih

/-- The same, with a node that is done with the slot told by what it asks for. -/
@[elab_as_elim]
theorem walk_descent
    (any : ∀ chain slot, motive chain .any slot)
    (asks : ∀ chain v slot expected, v.asks? = some expected →
      (∀ part ∈ v.parts slot, motive [] part.validator part.slot) → motive chain v slot)
    (union : ∀ chain branches slot, (∀ branch ∈ branches, motive chain branch slot) →
      motive chain (.union branches) slot)
    (lazy : ∀ chain label child slot, motive chain child slot →
      motive chain (.lazy label child) slot)
    (cycle : ∀ chain target owner registry slot, target ∈ chain →
      motive chain (.reference target owner registry) slot)
    (broken : ∀ chain target owner registry slot cause, target ∉ chain →
      shelf.resolve registry target owner = .error cause →
        motive chain (.reference target owner registry) slot)
    (follow : ∀ chain target owner registry slot entry, target ∉ chain →
      shelf.resolve registry target owner = .ok entry →
        motive (target :: chain) entry.validator slot →
          motive chain (.reference target owner registry) slot)
    (absent : ∀ chain inner, motive chain (.optional inner) none)
    (present : ∀ chain inner x, motive chain inner (some x) →
      motive chain (.optional inner) (some x))
    (chain : List String) (v : Validator) (slot : Slot) : motive chain v slot := by
  refine chain_induction shelf (fun chain v slot hsettled ih => ?_) union lazy cycle broken follow
    absent present chain v slot
  rcases Validator.any_or_asks hsettled with rfl | ⟨expected, hasks⟩
  · exact any chain slot
  · exact asks chain v slot expected hasks ih

end Induction

end SchemaSets
