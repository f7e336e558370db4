import Mathlib.Data.List.Basic
import SchemaSets.Proofs.Absence
import SchemaSets.Proofs.Alike
import SchemaSets.Proofs.Documents
import SchemaSets.Proofs.Links
import SchemaSets.Proofs.Walk

/-!
# What checks look at

A validator holds more than its checks look at: the signatures of functions, the
labels of lazy nodes, and the handle of the set that it was compiled for.  The
*bare* validator is without them, and a compiled set becomes bare entry by entry.
A bare set stands on a shelf of its own.

Walking, searching for absence and writing schemas do the same with bare
validators as with the others (`walk_bare`, `absenceSearch_bare`,
`schemaMembers_bare`), step by step and with the same outcome, errors included.
So two sets that are equal once bare cannot be told apart by their reports, and
with the same dependencies not by their documents either (`check_eq_of_bare_eq`,
`get?_exportWith_eq_of_bare_eq`).
-/

namespace SchemaSets

namespace Validator

mutual
/-- A validator without what no check looks at. -/
def bare : Validator → Validator
  | .any => .any
  | .literal text => .literal text
  | .boolean => .boolean
  | .string => .string
  | .number => .number
  | .enumeration values => .enumeration values
  | .object fields closed => .object (bareFields fields) closed
  | .array item => .array (bare item)
  | .record value => .record (bare value)
  | .union branches => .union (bareList branches)
  | .function _ _ => .function [] none
  | .lazy _ child => .lazy none (bare child)
  | .reference target owner _ => .reference target owner (.ofSet 0)
  | .optional inner => .optional (bare inner)
/-- Bare validators, one by one. -/
def bareList : List Validator → List Validator
  | [] => []
  | v :: rest => bare v :: bareList rest
/-- Bare fields, one by one. -/
def bareFields : List (String × Validator) → List (String × Validator)
  | [] => []
  | (name, v) :: rest => (name, bare v) :: bareFields rest
end

theorem bareList_eq_map (vs : List Validator) : bareList vs = vs.map bare := by
  induction vs with
  | nil => rfl
  | cons v vs ih => rw [bareList, ih, List.map_cons]

theorem bareFields_eq_map (fields : List (String × Validator)) :
    bareFields fields = fields.map fun field => (field.1, field.2.bare) := by
  induction fields with
  | nil => rfl
  | cons field rest ih => rw [bareFields, ih, List.map_cons]

end Validator

/-- An entry with its validator bare. -/
def Entry.bare (entry : Entry) : Entry := .of entry.name entry.validator.bare

namespace CompiledSet

/-- A compiled set with bare entries. -/
def bare (set : CompiledSet) : CompiledSet :=
  ⟨Keyed.mapValues (fun _ entry => entry.bare) set.entries⟩

/-- A shelf that holds nothing but the bare set. -/
def bareShelf (set : CompiledSet) : Shelf := ({} : Shelf).put 0 set.bare

theorem get?_bare (set : CompiledSet) (name : String) :
    set.bare.get? name = (set.get? name).map Entry.bare := by
  rw [get?, bare, Keyed.find?_mapValues, ← get?]

theorem names_bare (set : CompiledSet) : set.bare.names = set.names := by
  rw [names, names, bare, Keyed.keys_mapValues]

end CompiledSet

section Standing

variable {shelf : Shelf} {registry : Handle} {set : CompiledSet}

/-- A link that can be followed can be followed to the bare entry. -/
theorem Stands.resolve_bare_ok (hset : Stands shelf registry set) {target owner : String}
    {entry : Entry} (h : shelf.resolve registry target owner = .ok entry) :
    set.bareShelf.resolve (.ofSet 0) target owner = .ok entry.bare := by
  have hfound := hset.resolve_eq_ok_iff.1 h
  have hshelf : set.bareShelf.set? (.ofSet 0) = some set.bare := rfl
  simp only [Shelf.resolve, hshelf, CompiledSet.get?_bare, hfound, Option.map_some]

/-- A link that leads nowhere leads nowhere in the bare set, for the same reason. -/
theorem Stands.resolve_bare_error (hset : Stands shelf registry set) {target owner : String}
    {cause : ReferenceError} (h : shelf.resolve registry target owner = .error cause) :
    set.bareShelf.resolve (.ofSet 0) target owner = .error cause := by
  obtain ⟨hnone, rfl⟩ := hset.resolve_eq_error_iff.1 h
  have hshelf : set.bareShelf.set? (.ofSet 0) = some set.bare := rfl
  simp only [Shelf.resolve, hshelf, CompiledSet.get?_bare, hnone, Option.map_none,
    CompiledSet.names_bare]

end Standing

/-! ## Walks -/

/-- What is done with its slot is paired with itself when bare. -/
theorem Validator.paired_bare {v : Validator} (h : ¬v.PassesOn) :
    v.Paired (fun part counterpart => counterpart = part.bare) Eq v.bare := by
  cases v with
  | object fields closed =>
      rw [bare, bareFields_eq_map]
      refine .object (List.forall₂_map_right_iff.2 ?_) rfl
      exact List.forall₂_same.2 fun _ _ => ⟨rfl, rfl⟩
  | array item => exact .array rfl
  | record value => exact .record rfl
  | function args returns => exact .function
  | union | lazy | reference | optional => exact absurd trivial h
  | _ => exact .leaf trivial

section Standing

variable {shelf : Shelf} {registry : Handle} {set : CompiledSet}

/-- A walk does the same with a bare validator, in the bare set. -/
theorem walk_bare (hset : Stands shelf registry set) {v : Validator}
    (hinward : ∀ link ∈ v.links, link.registry = registry) (chain : List String) (slot : Slot) :
    walk set.bareShelf chain v.bare slot = walk shelf chain v slot := by
  induction chain, v, slot using chain_induction shelf with
  | settled chain v slot hsettled ih =>
      refine eq_of_mapError_id (walk_alike (Validator.paired_bare hsettled) ?_)
      rintro part hpart _ rfl
      rw [ih part hpart fun link hlink =>
        hinward link (Validator.mem_links_of_mem_parts hpart hlink)]
  | union chain branches slot ih =>
      simp only [Validator.links, Validator.mem_linksOfList] at hinward
      have hbranches : walkBranches set.bareShelf chain (Validator.bareList branches) slot =
          walkBranches shelf chain branches slot := by
        rw [Validator.bareList_eq_map]
        refine eq_of_mapError_id (walkBranches_alike (List.forall₂_map_right_iff.2 ?_))
        refine List.forall₂_same.2 fun branch hbranch => ?_
        rw [ih branch hbranch fun link hlink => hinward link ⟨branch, hbranch, hlink⟩]
      have hlength : (Validator.bareList branches).length = branches.length := by
        rw [Validator.bareList_eq_map, List.length_map]
      rw [Validator.bare, walk, walk, hbranches, hlength]
  | lazy chain label child slot ih =>
      rw [Validator.bare, walk, walk]
      exact ih hinward
  | cycle chain target owner through slot h =>
      rw [Validator.bare, walk_cycle h, walk_cycle h]
  | broken chain target owner through slot cause hnew h =>
      have hthrough : through = registry := hinward ⟨target, owner, through⟩ (by
        simp [Validator.links])
      subst hthrough
      rw [Validator.bare, walk_broken hnew h, walk_broken hnew (hset.resolve_bare_error h)]
  | follow chain target owner through slot entry hnew h ih =>
      have hthrough : through = registry := hinward ⟨target, owner, through⟩ (by
        simp [Validator.links])
      subst hthrough
      rw [Validator.bare, walk_follow hnew h, walk_follow hnew (hset.resolve_bare_ok h)]
      exact ih (hset.inward (hset.resolve_eq_ok_iff.1 h))
  | absent chain inner => rw [Validator.bare, walk, walk]
  | present chain inner x ih =>
      rw [Validator.bare, walk, walk]
      exact ih hinward

/-- A report is the same on a bare validator. -/
theorem validateSlot_bare (hset : Stands shelf registry set) {v : Validator}
    (hinward : ∀ link ∈ v.links, link.registry = registry) (slot : Slot) :
    v.bare.validateSlot set.bareShelf slot = v.validateSlot shelf slot := by
  rw [Validator.validateSlot, Validator.validateSlot, walk_bare hset hinward]

/-! ## Absence and schemas -/

/-- The search for absence follows a new link to its entry. -/
theorem absenceSearch_follow {followed : List String} {target owner : String} {entry : Entry}
    {rest : List Validator} (hnew : target ∉ followed)
    (h : shelf.resolve registry target owner = .ok entry) :
    absenceSearch shelf followed (.reference target owner registry :: rest) =
      absenceSearch shelf (target :: followed) (entry.validator :: rest) := by
  rw [absenceSearch, dif_neg hnew]
  split <;> simp_all

/-- The search for absence drops a link that leads nowhere. -/
theorem absenceSearch_broken {followed : List String} {target owner : String}
    {cause : ReferenceError} {rest : List Validator} (hnew : target ∉ followed)
    (h : shelf.resolve registry target owner = .error cause) :
    absenceSearch shelf followed (.reference target owner registry :: rest) =
      absenceSearch shelf (target :: followed) rest := by
  rw [absenceSearch, dif_neg hnew]
  split <;> simp_all

/-- The search for absence does the same with bare validators. -/
theorem absenceSearch_bare (hset : Stands shelf registry set) {followed : List String}
    {stack : List Validator}
    (hinward : ∀ link ∈ Validator.linksOfList stack, link.registry = registry) :
    absenceSearch set.bareShelf followed (Validator.bareList stack) =
      absenceSearch shelf followed stack := by
  fun_induction absenceSearch shelf followed stack with
  | case1 followed => rw [Validator.bareList, absenceSearch]
  | case2 followed rest => rw [Validator.bareList, Validator.bare, absenceSearch]
  | case3 followed inner rest => rw [Validator.bareList, Validator.bare, absenceSearch]
  | case4 followed label child rest ih =>
      rw [Validator.bareList, Validator.bare, absenceSearch]
      exact ih (by simpa [Validator.linksOfList, Validator.links] using hinward)
  | case5 followed branches rest ih =>
      rw [Validator.bareList, Validator.bare, absenceSearch, Validator.bareList_eq_map,
        Validator.bareList_eq_map, ← List.map_append, ← Validator.bareList_eq_map]
      exact ih (by
        simpa [Validator.linksOfList, Validator.links, or_imp, forall_and] using hinward)
  | case6 followed target owner through rest hmet ih =>
      rw [Validator.linksOfList, List.forall_mem_append] at hinward
      rw [Validator.bareList, Validator.bare, absenceSearch, dif_pos hmet]
      exact ih hinward.2
  | case7 followed target owner through rest hnew cause hresolve ih =>
      rw [Validator.linksOfList, List.forall_mem_append] at hinward
      have hthrough : through = registry := hinward.1 _ (List.mem_singleton_self _)
      subst hthrough
      rw [Validator.bareList, Validator.bare,
        absenceSearch_broken hnew (hset.resolve_bare_error hresolve)]
      exact ih hinward.2
  | case8 followed target owner through rest hnew entry hresolve ih =>
      rw [Validator.linksOfList, List.forall_mem_append] at hinward
      have hthrough : through = registry := hinward.1 _ (List.mem_singleton_self _)
      subst hthrough
      have hentry : ∀ link ∈ Validator.linksOfList (entry.validator :: rest),
          link.registry = through :=
        List.forall_mem_append.2 ⟨hset.inward (hset.resolve_eq_ok_iff.1 hresolve), hinward.2⟩
      rw [Validator.bareList, Validator.bare,
        absenceSearch_follow hnew (hset.resolve_bare_ok hresolve)]
      exact ih hentry
  | case9 followed v rest hany hoptional hlazy hunion hreference ih =>
      rw [Validator.linksOfList, List.forall_mem_append] at hinward
      cases v with
      | any => exact absurd rfl hany
      | optional inner => exact absurd rfl (hoptional inner)
      | lazy label child => exact absurd rfl (hlazy label child)
      | union branches => exact absurd rfl (hunion branches)
      | reference target owner through => exact absurd rfl (hreference target owner through)
      | _ =>
          rw [Validator.bareList, Validator.bare, absenceSearch]
          · exact ih hinward.2
          all_goals simp

/-- A bare validator may be absent exactly if the validator may. -/
theorem mayBeAbsent_bare (hset : Stands shelf registry set) {v : Validator}
    (hinward : ∀ link ∈ v.links, link.registry = registry) :
    v.bare.mayBeAbsent set.bareShelf = v.mayBeAbsent shelf := by
  have hlist : ∀ link ∈ Validator.linksOfList [v], link.registry = registry := by
    simpa [Validator.linksOfList] using hinward
  exact absenceSearch_bare hset hlist

/-- Of bare fields the same are required. -/
theorem requiredFields_bare (hset : Stands shelf registry set)
    {fields : List (String × Validator)}
    (hinward : ∀ field ∈ fields, ∀ link ∈ field.2.links, link.registry = registry) :
    requiredFields set.bareShelf (Validator.bareFields fields) = requiredFields shelf fields := by
  have hmay : ∀ field ∈ fields,
      (!field.2.bare.mayBeAbsent set.bareShelf) = !field.2.mayBeAbsent shelf :=
    fun field hfield => by rw [mayBeAbsent_bare hset (hinward field hfield)]
  rw [Validator.bareFields_eq_map, requiredFields, requiredFields, List.filter_map, List.map_map,
    ← List.filter_congr hmay]
  rfl

mutual
/-- The schema of a bare validator is that of the validator. -/
theorem schemaMembers_bare (hset : Stands shelf registry set) (key : String) (v : Validator)
    (hinward : ∀ link ∈ v.links, link.registry = registry) :
    v.bare.schemaMembers set.bareShelf key = v.schemaMembers shelf key := by
  cases v with
  | object fields closed =>
      have heach : ∀ field ∈ fields, ∀ link ∈ field.2.links, link.registry = registry :=
        fun field hfield link hlink =>
          hinward link (Validator.mem_linksOfFields.2 ⟨field, hfield, hlink⟩)
      rw [Validator.bare, Validator.schemaMembers, Validator.schemaMembers,
        schemaFields_bare hset key fields hinward, requiredFields_bare hset heach]
  | array item =>
      rw [Validator.bare, Validator.schemaMembers, Validator.schemaMembers,
        schemaMembers_bare hset key item hinward]
  | record value =>
      rw [Validator.bare, Validator.schemaMembers, Validator.schemaMembers,
        schemaMembers_bare hset key value hinward]
  | union branches =>
      rw [Validator.bare, Validator.schemaMembers, Validator.schemaMembers,
        schemaList_bare hset key branches hinward]
  | lazy label child =>
      rw [Validator.bare, Validator.schemaMembers, Validator.schemaMembers,
        schemaMembers_bare hset key child hinward]
  | optional inner =>
      rw [Validator.bare, Validator.schemaMembers, Validator.schemaMembers,
        schemaMembers_bare hset key inner hinward]
  | _ => rw [Validator.bare, Validator.schemaMembers, Validator.schemaMembers]
/-- The schemas of bare validators are those of the validators. -/
theorem schemaList_bare (hset : Stands shelf registry set) (key : String) (vs : List Validator)
    (hinward : ∀ link ∈ Validator.linksOfList vs, link.registry = registry) :
    Validator.schemaList set.bareShelf key (Validator.bareList vs) =
      Validator.schemaList shelf key vs := by
  cases vs with
  | nil => rw [Validator.bareList, Validator.schemaList, Validator.schemaList]
  | cons v vs =>
      rw [Validator.linksOfList, List.forall_mem_append] at hinward
      rw [Validator.bareList, Validator.schemaList, Validator.schemaList,
        schemaMembers_bare hset key v hinward.1, schemaList_bare hset key vs hinward.2]
/-- The schemas of bare fields are those of the fields. -/
theorem schemaFields_bare (hset : Stands shelf registry set) (key : String)
    (fields : List (String × Validator))
    (hinward : ∀ link ∈ Validator.linksOfFields fields, link.registry = registry) :
    Validator.schemaFields set.bareShelf key (Validator.bareFields fields) =
      Validator.schemaFields shelf key fields := by
  cases fields with
  | nil => rw [Validator.bareFields, Validator.schemaFields, Validator.schemaFields]
  | cons field rest =>
      obtain ⟨name, v⟩ := field
      rw [Validator.linksOfFields, List.forall_mem_append] at hinward
      rw [Validator.bareFields, Validator.schemaFields, Validator.schemaFields,
        schemaMembers_bare hset key v hinward.1, schemaFields_bare hset key rest hinward.2]
end

end Standing

/-! ## Sets -/

/-- The report on a slot under an entry of a set. -/
def CompiledSet.check (shelf : Shelf) (set : CompiledSet) (name : String) (slot : Slot) :
    Except SchemaError Report := do
  let entry ← set.entry name
  (entry.validator.validateSlot shelf slot).mapError .reference

/-- Whether an entry of a set may be absent, where there is one. -/
def CompiledSet.mayBeAbsent? (shelf : Shelf) (set : CompiledSet) (name : String) : Option Bool :=
  (set.get? name).map fun entry => entry.validator.mayBeAbsent shelf

section Sets

variable {shelf : Shelf} {registry : Handle} {set : CompiledSet}

/-- The report on an entry is that of its validator. -/
theorem check_of_get? {name : String} {entry : Entry} (hentry : set.get? name = some entry)
    (slot : Slot) :
    set.check shelf name slot = (entry.validator.validateSlot shelf slot).mapError .reference := by
  rw [CompiledSet.check, CompiledSet.entry, hentry]
  rfl

/-- There is a report on an entry where its validator has one. -/
theorem check_eq_ok_iff {name : String} {entry : Entry} (hentry : set.get? name = some entry)
    {slot : Slot} {report : Report} :
    set.check shelf name slot = .ok report ↔
      entry.validator.validateSlot shelf slot = .ok report := by
  rw [check_of_get? hentry]
  cases entry.validator.validateSlot shelf slot <;> simp [Except.mapError]

/-- A set reports what it reports once bare. -/
theorem check_bare (hset : Stands shelf registry set) (name : String) (slot : Slot) :
    set.bare.check set.bareShelf name slot = set.check shelf name slot := by
  rw [CompiledSet.check, CompiledSet.check, CompiledSet.entry, CompiledSet.entry,
    CompiledSet.get?_bare]
  cases hentry : set.get? name with
  | none => rfl
  | some entry =>
      have hslot := validateSlot_bare hset (hset.inward hentry) slot
      exact congrArg (Except.mapError SchemaError.reference) hslot

/-- An entry of a set may be absent exactly if the bare entry may. -/
theorem mayBeAbsent?_bare (hset : Stands shelf registry set) (name : String) :
    set.bare.mayBeAbsent? set.bareShelf name = set.mayBeAbsent? shelf name := by
  rw [CompiledSet.mayBeAbsent?, CompiledSet.mayBeAbsent?, CompiledSet.get?_bare]
  cases hentry : set.get? name with
  | none => rfl
  | some entry => exact congrArg some (mayBeAbsent_bare hset (hset.inward hentry))

/-- The definitions of a set are those of the bare set. -/
theorem definitions_bare (hset : Stands shelf registry set) (exporter : ExportSettings)
    (names : List String) :
    set.bare.definitions set.bareShelf exporter names = set.definitions shelf exporter names := by
  refine List.filterMap_congr fun name _ => ?_
  rw [CompiledSet.get?_bare]
  cases hentry : set.get? name with
  | none => rfl
  | some entry =>
      have hmembers := schemaMembers_bare hset exporter.definitionsKey entry.validator
        (hset.inward hentry)
      exact congrArg (fun members => some (name, Json.object members)) hmembers

/-- The document of an entry is that of the bare entry. -/
theorem document_bare (hset : Stands shelf registry set) (exporter : ExportSettings)
    (dependencies : List (String × List String)) {name : String} {entry : Entry}
    (h : set.get? name = some entry) :
    set.bare.document set.bareShelf exporter dependencies entry.bare =
      set.document shelf exporter dependencies entry := by
  have hname : entry.bare.name = entry.name := rfl
  have hvalidator : entry.bare.validator = entry.validator.bare := rfl
  have hmembers := schemaMembers_bare hset exporter.definitionsKey entry.validator (hset.inward h)
  simp only [CompiledSet.document, definitions_bare hset, hname, hvalidator, hmembers]

/-- A set is written as it is written once bare. -/
theorem get?_exportWith_bare (hset : Stands shelf registry set) (exporter : ExportSettings)
    (dependencies : List (String × List String)) (name : String) :
    (set.bare.exportWith set.bareShelf exporter dependencies).get? name =
      (set.exportWith shelf exporter dependencies).get? name := by
  rw [get?_exportWith, get?_exportWith, CompiledSet.get?_bare]
  cases hentry : set.get? name with
  | none => rw [Option.map_none, Option.map_none, Option.map_none]
  | some entry =>
      rw [Option.map_some, Option.map_some, Option.map_some,
        document_bare hset exporter dependencies hentry]

end Sets

/-! ## Sets that are equal once bare -/

section Equal

variable {shelf other : Shelf} {registry through : Handle} {left right : CompiledSet}

/-- Sets that are equal once bare report the same, errors included. -/
theorem check_eq_of_bare_eq (hleft : Stands shelf registry left)
    (hright : Stands other through right) (h : left.bare = right.bare) (name : String)
    (slot : Slot) : left.check shelf name slot = right.check other name slot := by
  rw [← check_bare hleft, ← check_bare hright, CompiledSet.bareShelf, CompiledSet.bareShelf, h]

/-- Of sets that are equal once bare the same entries may be absent. -/
theorem mayBeAbsent?_eq_of_bare_eq (hleft : Stands shelf registry left)
    (hright : Stands other through right) (h : left.bare = right.bare) (name : String) :
    left.mayBeAbsent? shelf name = right.mayBeAbsent? other name := by
  rw [← mayBeAbsent?_bare hleft, ← mayBeAbsent?_bare hright, CompiledSet.bareShelf,
    CompiledSet.bareShelf, h]

/-- Sets that are equal once bare are written alike if their dependencies are the same. -/
theorem get?_exportWith_eq_of_bare_eq (hleft : Stands shelf registry left)
    (hright : Stands other through right) (h : left.bare = right.bare)
    (exporter : ExportSettings) (dependencies : List (String × List String)) (name : String) :
    (left.exportWith shelf exporter dependencies).get? name =
      (right.exportWith other exporter dependencies).get? name := by
  rw [← get?_exportWith_bare hleft, ← get?_exportWith_bare hright, CompiledSet.bareShelf,
    CompiledSet.bareShelf, h]

end Equal

end SchemaSets
