import Mathlib.Data.List.Permutation
import SchemaSets.Proofs.Absence
import SchemaSets.Proofs.Alike
import SchemaSets.Proofs.Mappings
import SchemaSets.Proofs.Unsigned

/-!
# An entry depends on nothing but what it leads to

Two sets may differ everywhere except under the names that an entry leads to, and
the entry will not show it.  What it leads to is told by the closure, a search
through elements that looks at no validator and at no value.

The argument is about two compiled sets that share their entries under some names,
where these entries lead to such names only (`Shares`).  A walk that starts from
there stays there, and so does a reason for a slot to fit, and so do schemas.  One
thing does show: an error lists the names that were known, and those are the names
of the whole set.  So walks come to the same once errors are seen without that
list (`walk_shares`).

That the sets are compiled side by side, behind different handles, makes no
difference; both can be compiled anew behind one handle.

## Main results

* `closure_eq_of_agree` — sets that agree on a closure have the same closure.
* `alike_of_agree` — an entry is checked, may be absent, and is written alike in
  sets that agree on it and on its closure.
-/

namespace SchemaSets

open Relation

/-- An error that does not say which names were known. -/
def ReferenceError.withoutKnown : ReferenceError → ReferenceError
  | .unresolved target owner _ => .unresolved target owner []
  | .unavailable target => .unavailable target

/-- An error that does not say which names were known. -/
def SchemaError.withoutKnown : SchemaError → SchemaError
  | .reference cause => .reference cause.withoutKnown
  | e => e

/-- Two compiled sets have the same entries under some names, and these entries lead
to such names only. -/
structure Shares (Within : String → Prop) (registry : Handle) (left right : CompiledSet) :
    Prop where
  same : ∀ name, Within name → right.get? name = left.get? name
  within : ∀ name entry, Within name → left.get? name = some entry →
    entry.validator.LinksWithin registry Within

/-! ## Compiled sets that share entries -/

section Shared

variable {shelf other : Shelf} {registry : Handle} {left right : CompiledSet}
variable {Within : String → Prop}

/-- A shared name resolves alike, or fails to. -/
theorem resolve_shares (hleft : Stands shelf registry left) (hright : Stands other registry right)
    (hshares : Shares Within registry left right) {target : String} (htarget : Within target)
    (owner : String) :
    (other.resolve registry target owner).mapError ReferenceError.withoutKnown =
      (shelf.resolve registry target owner).mapError ReferenceError.withoutKnown := by
  have hsame : right.get? target = left.get? target := hshares.same target htarget
  simp only [Shelf.resolve, hleft.onShelf, hright.onShelf, hsame]
  cases left.get? target with
  | none => rfl
  | some entry => rfl

/-- A walk among shared names comes to the same in both sets. -/
theorem walk_shares (hleft : Stands shelf registry left) (hright : Stands other registry right)
    (hshares : Shares Within registry left right) {v : Validator}
    (hlinks : v.LinksWithin registry Within) (chain : List String) (slot : Slot) :
    (walk other chain v slot).mapError ReferenceError.withoutKnown =
      (walk shelf chain v slot).mapError ReferenceError.withoutKnown := by
  induction chain, v, slot using chain_induction shelf with
  | settled chain v slot hsettled ih =>
      refine walk_alike (.refl hsettled) ?_
      rintro part hpart _ rfl
      exact ih part hpart fun link hlink =>
        hlinks link (Validator.mem_links_of_mem_parts hpart hlink)
  | union chain branches slot ih =>
      have hbranches := walkBranches_alike (List.forall₂_same.2 fun branch hbranch =>
        ih branch hbranch (hlinks.of_branch hbranch))
      rw [walk, walk, mapError_bind_eq, mapError_bind_eq, hbranches]
  | lazy chain label child slot ih =>
      rw [walk, walk]
      exact ih hlinks
  | cycle chain target owner through slot h => rw [walk_cycle h, walk_cycle h]
  | broken chain target owner through slot cause hnew h =>
      have hlink := hlinks ⟨target, owner, through⟩ (List.mem_singleton_self _)
      have hthrough : through = registry := hlink.1
      subst hthrough
      have hresolve := resolve_shares hleft hright hshares hlink.2 owner
      rw [h] at hresolve
      cases hother : other.resolve through target owner with
      | ok entry =>
          rw [hother] at hresolve
          cases hresolve
      | error reason =>
          rw [hother] at hresolve
          have hreason : reason.withoutKnown = cause.withoutKnown := by
            simpa [Except.mapError] using hresolve
          rw [walk_broken hnew h, walk_broken hnew hother]
          exact congrArg Except.error hreason
  | follow chain target owner through slot entry hnew h ih =>
      have hlink := hlinks ⟨target, owner, through⟩ (List.mem_singleton_self _)
      have hthrough : through = registry := hlink.1
      subst hthrough
      have hfound : left.get? target = some entry := hleft.resolve_eq_ok_iff.1 h
      have hshared : right.get? target = some entry := by rw [hshares.same target hlink.2, hfound]
      have hother : other.resolve through target owner = .ok entry :=
        hright.resolve_eq_ok_iff.2 hshared
      rw [walk_follow hnew h, walk_follow hnew hother]
      exact ih (hshares.within target entry hlink.2 hfound)
  | absent chain inner => rw [walk, walk]
  | present chain inner x ih =>
      rw [walk, walk]
      exact ih hlinks

/-- A reason among shared names is one in both sets. -/
theorem FitsBeyond.of_shares (hshares : Shares Within registry left right) {chain : List String}
    {v : Validator} {slot : Slot} (h : FitsBeyond left chain v slot)
    (hlinks : v.LinksWithin registry Within) : FitsBeyond right chain v slot := by
  induction h with
  | leaf takes => exact .leaf takes
  | object each listed ih =>
      exact .object (fun field hfield => ih field hfield (hlinks.of_field hfield)) listed
  | array each ih => exact .array fun x hx => ih x hx hlinks
  | record each ih => exact .record fun member hmember => ih member hmember hlinks
  | union mem _ ih => exact .union mem (ih (hlinks.of_branch mem))
  | lazy _ ih => exact .lazy (ih hlinks)
  | @reference chain slot target owner through entry new found fits ih =>
      have htarget : Within target := hlinks.target_of_reference
      have hshared : right.get? target = some entry := by rw [hshares.same target htarget, found]
      exact .reference new hshared (ih (hshares.within target entry htarget found))
  | absent => exact .absent
  | present _ ih => exact .present (ih hlinks)

/-- Sharing goes both ways. -/
theorem Shares.symm (h : Shares Within registry left right) :
    Shares Within registry right left where
  same := fun name hname => (h.same name hname).symm
  within := fun name entry hname hentry => h.within name entry hname (h.same name hname ▸ hentry)

/-- Among shared names the same validators may be absent. -/
theorem mayBeAbsent_shares (hleft : Stands shelf registry left)
    (hright : Stands other registry right) (hshares : Shares Within registry left right)
    {v : Validator} (hlinks : v.LinksWithin registry Within) :
    v.mayBeAbsent other = v.mayBeAbsent shelf := by
  rw [Bool.eq_iff_iff, mayBeAbsent_iff hright hlinks.inward, mayBeAbsent_iff hleft hlinks.inward]
  constructor
  · exact fun h => FitsBeyond.of_shares hshares.symm h hlinks
  · exact fun h => FitsBeyond.of_shares hshares h hlinks

end Shared

/-! ## Schemas -/

section Schemas

variable {shelf other : Shelf} {registry : Handle} {Within : String → Prop}

mutual
/-- Shelves on which the same validators may be absent give the same schemas. -/
theorem schemaMembers_eq
    (hmay : ∀ v : Validator, v.LinksWithin registry Within →
      v.mayBeAbsent other = v.mayBeAbsent shelf) (key : String) (v : Validator)
    (hlinks : v.LinksWithin registry Within) :
    v.schemaMembers other key = v.schemaMembers shelf key := by
  cases v with
  | object fields closed =>
      have hrequired : requiredFields other fields = requiredFields shelf fields := by
        refine congrArg (List.map _) (List.filter_congr fun field hfield => ?_)
        rw [hmay field.2 (hlinks.of_field hfield)]
      rw [Validator.schemaMembers, Validator.schemaMembers, hrequired,
        schemaFields_eq hmay key fields hlinks]
  | array item =>
      rw [Validator.schemaMembers, Validator.schemaMembers, schemaMembers_eq hmay key item hlinks]
  | record value =>
      rw [Validator.schemaMembers, Validator.schemaMembers, schemaMembers_eq hmay key value hlinks]
  | union branches =>
      rw [Validator.schemaMembers, Validator.schemaMembers, schemaList_eq hmay key branches hlinks]
  | lazy label child =>
      rw [Validator.schemaMembers, Validator.schemaMembers, schemaMembers_eq hmay key child hlinks]
  | optional inner =>
      rw [Validator.schemaMembers, Validator.schemaMembers, schemaMembers_eq hmay key inner hlinks]
  | _ => rw [Validator.schemaMembers, Validator.schemaMembers]
/-- The same for the schemas of a list. -/
theorem schemaList_eq
    (hmay : ∀ v : Validator, v.LinksWithin registry Within →
      v.mayBeAbsent other = v.mayBeAbsent shelf) (key : String) (vs : List Validator)
    (hlinks : (Validator.union vs).LinksWithin registry Within) :
    Validator.schemaList other key vs = Validator.schemaList shelf key vs := by
  cases vs with
  | nil => rw [Validator.schemaList, Validator.schemaList]
  | cons v vs =>
      have hfirst := hlinks.of_branch (List.mem_cons_self (a := v) (l := vs))
      have hrest : (Validator.union vs).LinksWithin registry Within :=
        fun link hlink => hlinks link (List.mem_append_right _ hlink)
      rw [Validator.schemaList, Validator.schemaList, schemaMembers_eq hmay key v hfirst,
        schemaList_eq hmay key vs hrest]
/-- The same for the schemas of fields. -/
theorem schemaFields_eq
    (hmay : ∀ v : Validator, v.LinksWithin registry Within →
      v.mayBeAbsent other = v.mayBeAbsent shelf) (key : String)
    (fields : List (String × Validator)) {closed : Bool}
    (hlinks : (Validator.object fields closed).LinksWithin registry Within) :
    Validator.schemaFields other key fields = Validator.schemaFields shelf key fields := by
  cases fields with
  | nil => rw [Validator.schemaFields, Validator.schemaFields]
  | cons field rest =>
      obtain ⟨name, v⟩ := field
      have hfirst : v.LinksWithin registry Within :=
        hlinks.of_field (List.mem_cons_self (a := (name, v)) (l := rest))
      have hrest : (Validator.object rest closed).LinksWithin registry Within :=
        fun link hlink => hlinks link (List.mem_append_right _ hlink)
      rw [Validator.schemaFields, Validator.schemaFields, schemaMembers_eq hmay key v hfirst,
        schemaFields_eq hmay key rest hrest]
end

end Schemas

/-! ## Reports and documents of shared entries -/

section Entries

variable {shelf other : Shelf} {registry : Handle} {left right : CompiledSet}
variable {Within : String → Prop} {name : String}

/-- A shared entry is reported on alike. -/
theorem check_shares (hleft : Stands shelf registry left) (hright : Stands other registry right)
    (hshares : Shares Within registry left right) (hname : Within name) (slot : Slot) :
    (right.check other name slot).mapError SchemaError.withoutKnown =
      (left.check shelf name slot).mapError SchemaError.withoutKnown := by
  have hsame : right.get? name = left.get? name := hshares.same name hname
  cases hentry : left.get? name with
  | none =>
      rw [CompiledSet.check, CompiledSet.check, CompiledSet.entry, CompiledSet.entry, hsame, hentry]
      rfl
  | some entry =>
      have hwalk := walk_shares hleft hright hshares (hshares.within name entry hname hentry)
        [] slot
      have hview : ∀ outcome : Except ReferenceError Report,
          (outcome.mapError SchemaError.reference).mapError SchemaError.withoutKnown =
            (outcome.mapError ReferenceError.withoutKnown).mapError SchemaError.reference := by
        intro outcome
        cases outcome <;> rfl
      rw [check_of_get? hentry, check_of_get? (hsame.trans hentry), hview, hview,
        Validator.validateSlot, Validator.validateSlot, mapError_bind_eq, mapError_bind_eq, hwalk]

/-- A shared entry may be absent in both sets or in neither. -/
theorem mayBeAbsent?_shares (hleft : Stands shelf registry left)
    (hright : Stands other registry right) (hshares : Shares Within registry left right)
    (hname : Within name) : right.mayBeAbsent? other name = left.mayBeAbsent? shelf name := by
  rw [CompiledSet.mayBeAbsent?, CompiledSet.mayBeAbsent?, hshares.same name hname]
  cases hentry : left.get? name with
  | none => rfl
  | some entry =>
      have hlinks := hshares.within name entry hname hentry
      exact congrArg some (mayBeAbsent_shares hleft hright hshares hlinks)

/-- A shared entry has the same document in both sets, if its definitions are those of
the same shared names. -/
theorem document_shares (hleft : Stands shelf registry left)
    (hright : Stands other registry right) (hshares : Shares Within registry left right)
    (exporter : ExportSettings) {dependencies more : List (String × List String)}
    (hown : ∀ entry, left.get? name = some entry → entry.name = name)
    (hscope : ∀ target ∈ CompiledSet.scope dependencies name, Within target)
    (hsame : CompiledSet.scope more name = CompiledSet.scope dependencies name) :
    (right.exportWith other exporter more).get? name =
      (left.exportWith shelf exporter dependencies).get? name := by
  have hname : Within name := hscope name (Keyed.mem_nameSet.2 List.mem_cons_self)
  have hschema : ∀ target entry, Within target → left.get? target = some entry →
      entry.validator.schemaMembers other exporter.definitionsKey =
        entry.validator.schemaMembers shelf exporter.definitionsKey := by
    intro target entry htarget hentry
    have hmay : ∀ v : Validator, v.LinksWithin registry Within →
        v.mayBeAbsent other = v.mayBeAbsent shelf :=
      fun v hlinks => mayBeAbsent_shares hleft hright hshares hlinks
    exact schemaMembers_eq hmay _ _ (hshares.within target entry htarget hentry)
  have hdefinitions : right.definitions other exporter (CompiledSet.scope dependencies name) =
      left.definitions shelf exporter (CompiledSet.scope dependencies name) := by
    refine List.filterMap_congr fun target htarget => ?_
    rw [hshares.same target (hscope target htarget)]
    cases hentry : left.get? target with
    | none => rw [Option.map_none, Option.map_none]
    | some entry =>
        have hmembers := hschema target entry (hscope target htarget) hentry
        exact congrArg (fun members => some (target, Json.object members)) hmembers
  rw [get?_exportWith, get?_exportWith, hshares.same name hname]
  cases hentry : left.get? name with
  | none => rw [Option.map_none, Option.map_none]
  | some entry =>
      have hmembers := hschema name entry hname hentry
      refine congrArg some ?_
      simp only [CompiledSet.document, hown entry hentry, hsame, hdefinitions, hmembers]

end Entries

/-! ## Sets of elements that agree -/

namespace SchemaSet

variable {left right : SchemaSet} {settings : CompilerSettings} {registry : Handle}
variable {name : String}

/-- A name, or a name that it leads to. -/
def InReach (set : SchemaSet) (name target : String) : Prop :=
  target = name ∨ target ∈ set.closure name

/-- What is in reach of a name refers only to names in reach of it. -/
theorem InReach.of_targets
    (hreserved : ∀ source e, left.InReach name source → left.get? source = some e →
      reservedName ∉ e.targets)
    {source target : String} {e : Element} (hsource : left.InReach name source)
    (he : left.get? source = some e) (htarget : target ∈ e.targets) :
    left.InReach name target := by
  have hother : target ≠ reservedName := by
    rintro rfl
    exact hreserved source e hsource he htarget
  have hdepends : left.Depends source target := depends_iff.2 ⟨⟨e, he, htarget⟩, hother⟩
  rcases hsource with rfl | hsource
  · exact .inr (mem_closure_iff.2 (.single hdepends))
  · exact .inr (mem_closure_iff.2 (.tail (mem_closure_iff.1 hsource) hdepends))

/-- Sets that agree on what is in reach of a name are compiled to sets that share it. -/
theorem shares_compile
    (hreserved : ∀ source e, left.InReach name source → left.get? source = some e →
      reservedName ∉ e.targets)
    (hagree : ∀ target, left.InReach name target → right.get? target = left.get? target) :
    Shares (left.InReach name) registry (left.compile settings registry)
      (right.compile settings registry) where
  same := by
    intro target htarget
    rw [get?_compile, get?_compile, hagree target htarget]
  within := by
    intro source entry hsource hentry link hlink
    obtain ⟨e, he, rfl⟩ := exists_of_get?_compile hentry
    obtain ⟨htarget, -, hregistry⟩ := Element.mem_links_compile.1 hlink
    exact ⟨hregistry, hsource.of_targets hreserved he htarget⟩

/-- A set that agrees with another on a name and its closure has the same closure. -/
theorem closure_eq_of_agree
    (hagree : ∀ target, left.InReach name target → right.get? target = left.get? target) :
    right.closure name = left.closure name := by
  have hdepends : ∀ source, left.InReach name source → ∀ target,
      right.Depends source target ↔ left.Depends source target := by
    intro source hsource target
    rw [Depends, Depends, successors, successors, hagree source hsource]
  have hmem : ∀ target, target ∈ right.closure name ↔ target ∈ left.closure name := by
    intro target
    rw [mem_closure_iff, mem_closure_iff]
    constructor
    · intro hpath
      induction hpath with
      | single hfirst => exact .single ((hdepends name (.inl rfl) _).1 hfirst)
      | tail _ hlast ih =>
          exact .tail ih ((hdepends _ (.inr (mem_closure_iff.2 ih)) _).1 hlast)
    · intro hpath
      induction hpath with
      | single hfirst => exact .single ((hdepends name (.inl rfl) _).2 hfirst)
      | tail hsource hlast ih =>
          exact .tail ih ((hdepends _ (.inr (mem_closure_iff.2 hsource)) _).2 hlast)
  rw [closure, closure]
  refine Keyed.nameSet_eq_of_mem_iff fun target => ?_
  have hsearched := hmem target
  rwa [closure, closure, Keyed.mem_nameSet, Keyed.mem_nameSet] at hsearched

/-- Sets that agree on a name and its closure write the same document for it. -/
theorem document_of_agree {shelf other : Shelf}
    (hleft : Stands shelf registry (left.compile settings registry))
    (hright : Stands other registry (right.compile settings registry))
    (hreserved : ∀ source e, left.InReach name source → left.get? source = some e →
      reservedName ∉ e.targets)
    (hagree : ∀ target, left.InReach name target → right.get? target = left.get? target)
    (exporter : ExportSettings) :
    ((right.compile settings registry).exportWith other exporter
        right.dependencyMap).get? name =
      ((left.compile settings registry).exportWith shelf exporter
        left.dependencyMap).get? name := by
  have hname : right.get? name = left.get? name := hagree name (.inl rfl)
  cases he : left.get? name with
  | none =>
      rw [get?_exportWith, get?_exportWith, get?_compile, get?_compile, hname, he,
        Option.map_none, Option.map_none, Option.map_none]
  | some e =>
      have hcontains : left.contains name = true := Option.isSome_iff_exists.2 ⟨e, he⟩
      have hcontainsToo : right.contains name = true :=
        Option.isSome_iff_exists.2 ⟨e, hname.trans he⟩
      refine document_shares hleft hright (shares_compile hreserved hagree) exporter ?_ ?_ ?_
      · intro entry hentry
        obtain ⟨found, -, rfl⟩ := exists_of_get?_compile hentry
        rfl
      · intro target htarget
        rw [CompiledSet.scope, Keyed.mem_nameSet, find?_dependencyMap hcontains,
          Option.getD_some, List.mem_cons] at htarget
        exact htarget
      · rw [CompiledSet.scope, CompiledSet.scope, find?_dependencyMap hcontains,
          find?_dependencyMap hcontainsToo, closure_eq_of_agree hagree]

end SchemaSet

/-- Two sets that agree on a name and on its closure, where nothing refers to the
reserved name, cannot be told apart at that name: every slot is reported on alike, up
to the list of known names in an error, absence is the same, and so are the closure
and the documents. -/
theorem alike_of_agree {left right : SchemaSet} {settings : CompilerSettings}
    {shelf other : Shelf} {registry through : Handle} {name : String}
    (hshelf : shelf.set? registry = some (left.compile settings registry))
    (hother : other.set? through = some (right.compile settings through))
    (hreserved : ∀ source e, left.InReach name source → left.get? source = some e →
      reservedName ∉ e.targets)
    (hagree : ∀ target, left.InReach name target → right.get? target = left.get? target) :
    (∀ slot,
      ((right.compile settings through).check other name slot).mapError
          SchemaError.withoutKnown =
        ((left.compile settings registry).check shelf name slot).mapError
          SchemaError.withoutKnown) ∧
    (right.compile settings through).mayBeAbsent? other name =
      (left.compile settings registry).mayBeAbsent? shelf name ∧
    right.closure name = left.closure name ∧
    ∀ exporter, ((right.compile settings through).exportFor other exporter right).get? name =
      ((left.compile settings registry).exportFor shelf exporter left).get? name := by
  -- both sets are compiled anew behind one handle, on shelves of their own
  have hleft := Stands.of_compile hshelf
  have hright := Stands.of_compile hother
  have honce : Stands (({} : Shelf).put 0 (left.compile settings (.ofSet 0))) (.ofSet 0)
      (left.compile settings (.ofSet 0)) := Stands.of_compile (Shelf.set?_put _ _ _)
  have hagain : Stands (({} : Shelf).put 0 (right.compile settings (.ofSet 0))) (.ofSet 0)
      (right.compile settings (.ofSet 0)) := Stands.of_compile (Shelf.set?_put _ _ _)
  have hbare := left.bare_compile_eq settings registry (.ofSet 0)
  have hbareToo := right.bare_compile_eq settings through (.ofSet 0)
  have hshares : Shares (left.InReach name) (.ofSet 0) (left.compile settings (.ofSet 0))
      (right.compile settings (.ofSet 0)) := SchemaSet.shares_compile hreserved hagree
  have hclosure := SchemaSet.closure_eq_of_agree hagree
  refine ⟨?_, ?_, hclosure, ?_⟩
  · intro slot
    rw [check_eq_of_bare_eq hright hagain hbareToo, check_eq_of_bare_eq hleft honce hbare]
    exact check_shares honce hagain hshares (.inl rfl) slot
  · rw [mayBeAbsent?_eq_of_bare_eq hright hagain hbareToo,
      mayBeAbsent?_eq_of_bare_eq hleft honce hbare]
    exact mayBeAbsent?_shares honce hagain hshares (.inl rfl)
  · intro exporter
    rw [CompiledSet.exportFor, CompiledSet.exportFor,
      get?_exportWith_eq_of_bare_eq hright hagain hbareToo,
      get?_exportWith_eq_of_bare_eq hleft honce hbare]
    exact SchemaSet.document_of_agree honce hagain hreserved hagree exporter

/-- A person has a home, a house or a tent; a house has persons, and there is no tent. -/
def household : SchemaSet :=
  .ofList [("house", .record (.reference "person" false) false),
    ("person", .object [("home", .union [.lazy (.reference "house" true) false,
      .reference "tent" false] false)] false)]

/-- The same household, with a stranger who refers to it and to nobody. -/
def watchedHousehold : SchemaSet :=
  household.insert "stranger" (.union [.reference "person" false, .reference "nobody" false] false)

/-- Both households, compiled side by side. -/
def householdShelf : Shelf :=
  (({} : Shelf).put 0 (household.compile {} (.ofSet 0))).put 1
    (watchedHousehold.compile {} (.ofSet 1))

/-- A stranger does not change a person. -/
theorem alike_of_agree_household :
    (∀ slot,
      ((watchedHousehold.compile {} (.ofSet 1)).check householdShelf "person" slot).mapError
          SchemaError.withoutKnown =
        ((household.compile {} (.ofSet 0)).check householdShelf "person" slot).mapError
          SchemaError.withoutKnown) ∧
    (watchedHousehold.compile {} (.ofSet 1)).mayBeAbsent? householdShelf "person" =
      (household.compile {} (.ofSet 0)).mayBeAbsent? householdShelf "person" ∧
    watchedHousehold.closure "person" = household.closure "person" ∧
    ∀ exporter,
      ((watchedHousehold.compile {} (.ofSet 1)).exportFor householdShelf exporter
        watchedHousehold).get? "person" =
      ((household.compile {} (.ofSet 0)).exportFor householdShelf exporter
        household).get? "person" := by
  have hclosure : household.closure "person" = ["house", "person", "tent"] := by cbv
  have hnowhere : ∀ entry ∈ household.elements, reservedName ∉ entry.2.targets := by decide
  have hsame : ∀ target ∈ ["house", "person", "tent"],
      watchedHousehold.get? target = household.get? target := by decide
  have hagree : ∀ target, household.InReach "person" target →
      watchedHousehold.get? target = household.get? target := by
    intro target htarget
    rw [SchemaSet.InReach, hclosure] at htarget
    rcases htarget with rfl | htarget
    · exact hsame "person" (by decide)
    · exact hsame target htarget
  have hreserved : ∀ source e, household.InReach "person" source →
      household.get? source = some e → reservedName ∉ e.targets :=
    fun source e _ he => hnowhere _ (Keyed.mem_of_find? he)
  have hshelf : householdShelf.set? (.ofSet 0) = some (household.compile {} (.ofSet 0)) := rfl
  have hother : householdShelf.set? (.ofSet 1) =
      some (watchedHousehold.compile {} (.ofSet 1)) := rfl
  exact alike_of_agree hshelf hother hreserved hagree

end SchemaSets
