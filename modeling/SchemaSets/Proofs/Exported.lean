import SchemaSets.Proofs.Laziness
import SchemaSets.Proofs.Placed

/-!
# What an export forces

An export writes every entry of a set, whatever its dependency map says, since each entry is in
the scope of its own document.  Writing a validator forces each lazy node below it at which it
arrives, and it arrives at all of them but those in the signatures of functions.  The question of
absence, which is asked on the way and may go into other entries, stays outside signatures as well
(`defers_of_mem_builtByAbsence`).  So the nodes that are forced are the lazy nodes outside
signatures, neither more nor fewer (`mem_builtByExport_iff`).

Where they stand can be read off the elements that the set was compiled from
(`SchemaSet.Exposes`).

## Main results

* `mem_builtByExport_iff` — the lazy nodes that writing builds.
* `export_forces_exposed` — the lazy nodes that an export forces.
-/

namespace SchemaSets

/-! ## Elements at their places -/

/-- The elements of a set at the places of what they are compiled to.  Below a function there is
nothing: its arguments and what it returns are not exposed. -/
inductive SchemaSet.Exposes (set : SchemaSet) (registry : Handle) : Place → Element → Prop
  | entry {name : String} {e : Element} (found : set.get? name = some e) :
      Exposes set registry (.ofEntry registry name) e
  | beneath {place : Place} {e child : Element} (above : Exposes set registry place e)
      (noFunction : ∀ args returns, e ≠ .function args returns false) (position : Nat)
      (found : e.beneath[position]? = some child) :
      Exposes set registry (place.child position) child

section Places

variable {set : SchemaSet} {registry : Handle} {place : Place} {e : Element}

/-- What is exposed at the place of a child lies beneath what is exposed above, which is no
function. -/
theorem SchemaSet.Exposes.above {position : Nat}
    (h : set.Exposes registry (place.child position) e) :
    ∃ parent, set.Exposes registry place parent ∧
      (∀ args returns, parent ≠ .function args returns false) ∧
      parent.beneath[position]? = some e := by
  generalize hplace : place.child position = found at h
  cases h with
  | entry _ => exact absurd hplace Place.child_ne_ofEntry
  | beneath above noFunction position hchild =>
      obtain ⟨rfl, rfl⟩ := Place.child_inj hplace
      exact ⟨_, above, noFunction, hchild⟩

/-- At a place one element is exposed at most. -/
theorem SchemaSet.Exposes.unique {other : Element} (h : set.Exposes registry place e)
    (hother : set.Exposes registry place other) : e = other := by
  induction h generalizing other with
  | @entry name e found =>
      generalize hplace : Place.ofEntry registry name = place at hother
      cases hother with
      | entry foundToo =>
          cases hplace
          exact Option.some.inj (found.symm.trans foundToo)
      | beneath => exact absurd hplace.symm Place.child_ne_ofEntry
  | beneath above noFunction position found ih =>
      obtain ⟨parent, hparent, -, foundToo⟩ := hother.above
      obtain rfl := ih hparent
      exact Option.some.inj (found.symm.trans foundToo)

/-- Nothing in the signature of an exposed function is exposed. -/
theorem SchemaSet.Exposes.not_exposes_child {args : List Element} {returns : Option Element}
    (h : set.Exposes registry place (.function args returns false)) (position : Nat) :
    ¬ set.Exposes registry (place.child position) e := by
  intro hchild
  obtain ⟨parent, hparent, noFunction, -⟩ := hchild.above
  exact noFunction args returns (hparent.unique h)

end Places

/-- An element is compiled to a function if it is one, and not marked optional. -/
theorem Element.isFunction_compile_iff {policy : UnknownAttributes} {owner : String}
    {registry : Handle} {e : Element} :
    (e.compile policy owner registry).isFunction = true ↔
      ∃ args returns, e = .function args returns false := by
  constructor
  · intro h
    cases hcompile : e.compile policy owner registry with
    | function args returns =>
        have horigin := origin_of_compile_eq hcompile
        cases returns with
        | none =>
            obtain ⟨es, rfl, -⟩ := horigin
            exact ⟨es, none, rfl⟩
        | some result =>
            obtain ⟨es, child, rfl, -⟩ := horigin
            exact ⟨es, some child, rfl⟩
    | _ =>
        rw [hcompile] at h
        cases h
  · rintro ⟨args, returns, rfl⟩
    cases returns <;> rfl

section Compiled

variable {settings : CompilerSettings} {registry : Handle} {set : SchemaSet} {place : Place}

/-- Every exposed element is compiled to a node outside signatures. -/
theorem SchemaSet.Exposes.holds {e : Element} (h : set.Exposes registry place e) :
    ∃ owner, (set.compile settings registry).Holds registry false
      ⟨place, e.compile settings.unknownAttributes owner registry⟩ := by
  induction h with
  | @entry name e found =>
      have hnode : (set.compile settings registry).located? registry name =
          some (.ofEntry registry name (e.compile settings.unknownAttributes name registry)) := by
        rw [CompiledSet.located?, SchemaSet.get?_compile_of_eq found]
        rfl
      exact ⟨name, .entry hnode⟩
  | @beneath place e child above noFunction position found ih =>
      obtain ⟨owner, habove⟩ := ih
      refine ⟨owner, habove.child_of_not_function ?_ ?_⟩
      · rw [Bool.eq_false_iff]
        intro hfunction
        obtain ⟨args, returns, he⟩ := Element.isFunction_compile_iff.1 hfunction
        exact noFunction args returns he
      · rw [Element.children_compile, List.getElem?_map, found, Option.map_some]

/-- And every node outside signatures is compiled from an exposed element. -/
theorem SchemaSet.exposes_of_holds {signed : Bool} {node : Located}
    (h : (set.compile settings registry).Holds registry signed node) (hopen : signed = false) :
    ∃ owner e, set.Exposes registry node.place e ∧
      node.validator = Element.compile settings.unknownAttributes owner registry e := by
  induction h with
  | @entry name node found =>
      obtain ⟨entry, hentry, rfl⟩ := Option.map_eq_some_iff.1 found
      obtain ⟨e, he, rfl⟩ := SchemaSet.exists_of_get?_compile hentry
      exact ⟨name, e, .entry he, rfl⟩
  | @child signed node v above position found ih =>
      obtain ⟨rfl, hfunction⟩ := Bool.or_eq_false_iff.1 hopen
      obtain ⟨owner, e, hexposed, hcompile⟩ := ih rfl
      rw [hcompile, Element.children_compile, List.getElem?_map, Option.map_eq_some_iff] at found
      obtain ⟨child, hchild, rfl⟩ := found
      refine ⟨owner, child, .beneath hexposed ?_ position hchild, rfl⟩
      rintro args returns rfl
      rw [hcompile, Element.isFunction_compile_iff.2 ⟨args, returns, rfl⟩] at hfunction
      cases hfunction

/-- A compiled set defers what its exposed lazy elements stand for. -/
theorem SchemaSet.defers_compile_iff :
    (set.compile settings registry).Defers registry place ↔
      ∃ child, set.Exposes registry place (.lazy child false) := by
  constructor
  · rintro ⟨label, v, hnode⟩
    obtain ⟨owner, e, hexposed, hcompile⟩ := SchemaSet.exposes_of_holds hnode rfl
    obtain ⟨child, rfl, -⟩ := Element.origin_of_compile_eq hcompile.symm
    exact ⟨child, hexposed⟩
  · rintro ⟨child, hexposed⟩
    obtain ⟨owner, hnode⟩ := @SchemaSet.Exposes.holds settings _ _ _ _ hexposed
    exact ⟨_, _, hnode⟩

end Compiled

/-! ## Writing -/

section Writing

variable {shelf : Shelf} {place : Place}

/-- What writing one of several validators builds, writing all of them builds. -/
theorem builtBySchema_subset_list {vs : List Validator} {first position : Nat} {v : Validator}
    (hv : vs[position]? = some v) :
    v.builtBySchema shelf (place.child (first + position)) ⊆
      Validator.builtBySchemaList shelf place first vs := by
  induction vs generalizing first position with
  | nil => cases hv
  | cons w vs ih =>
      rw [Validator.builtBySchemaList]
      cases position with
      | zero =>
          obtain rfl : w = v := Option.some.inj hv
          exact List.subset_append_left _ _
      | succ position =>
          have hrest := @ih (first + 1) position hv
          rw [Nat.add_right_comm, Nat.add_assoc] at hrest
          exact List.subset_append_of_subset_right _ hrest

/-- What writing one of several fields builds, writing all of them builds. -/
theorem builtBySchema_subset_fields {fields : List (String × Validator)} {first position : Nat}
    {field : String × Validator} (hfield : fields[position]? = some field) :
    field.2.builtBySchema shelf (place.child (first + position)) ⊆
      Validator.builtBySchemaFields shelf place first fields := by
  induction fields generalizing first position with
  | nil => cases hfield
  | cons other fields ih =>
      obtain ⟨name, w⟩ := other
      rw [Validator.builtBySchemaFields, List.append_assoc]
      cases position with
      | zero =>
          obtain rfl : (name, w) = field := Option.some.inj hfield
          exact List.subset_append_left _ _
      | succ position =>
          have hrest := @ih (first + 1) position hfield
          rw [Nat.add_right_comm, Nat.add_assoc] at hrest
          exact List.subset_append_of_subset_right _ (List.subset_append_of_subset_right _ hrest)

/-- Writing what is no function goes on with all of its children. -/
theorem builtBySchema_child_subset {v child : Validator} (hfunction : v.isFunction = false)
    {position : Nat} (hchild : v.children[position]? = some child) :
    child.builtBySchema shelf (place.child position) ⊆ v.builtBySchema shelf place := by
  have hone : ∀ inner : Validator, [inner][position]? = some child →
      child.builtBySchema shelf (place.child position) =
        inner.builtBySchema shelf (place.child 0) := by
    intro inner h
    cases position with
    | zero =>
        cases h
        rfl
    | succ position => cases h
  cases v with
  | object fields closed =>
      rw [Validator.children, List.getElem?_map, Option.map_eq_some_iff] at hchild
      obtain ⟨field, hfield, rfl⟩ := hchild
      have hsubset := @builtBySchema_subset_fields shelf place _ 0 _ _ hfield
      rwa [Nat.zero_add] at hsubset
  | union branches =>
      have hsubset := @builtBySchema_subset_list shelf place _ 0 _ _ hchild
      rwa [Nat.zero_add] at hsubset
  | function args returns => cases hfunction
  | array inner | record inner | optional inner =>
      rw [hone inner hchild]
      exact List.Subset.refl _
  | lazy label inner =>
      rw [hone inner hchild]
      exact List.subset_cons_self _ _
  | _ => cases hchild

variable {registry : Handle} {set : CompiledSet}

/-- An export writes every node outside signatures. -/
theorem CompiledSet.Holds.builtBySchema_subset {signed : Bool} {node : Located}
    (h : set.Holds registry signed node) (hopen : signed = false)
    (dependencies : List (String × List String)) :
    node.builtBySchema shelf ⊆ set.builtByExport shelf registry dependencies := by
  induction h with
  | @entry name node found =>
      obtain ⟨entry, hentry, -⟩ := Option.map_eq_some_iff.1 found
      intro place hplace
      refine List.mem_flatMap.2 ⟨name, Keyed.mem_keys_of_find? hentry, ?_⟩
      refine List.mem_flatMap.2 ⟨node, List.mem_filterMap.2 ⟨name, ?_, found⟩, hplace⟩
      exact List.mem_append_right _ (List.mem_singleton_self name)
  | @child signed node v above position found ih =>
      obtain ⟨rfl, hfunction⟩ := Bool.or_eq_false_iff.1 hopen
      exact List.Subset.trans (builtBySchema_child_subset hfunction found) (ih rfl)

/-- The lazy nodes that an export builds are those outside signatures. -/
theorem mem_builtByExport_iff (hset : Stands shelf registry set)
    {dependencies : List (String × List String)} :
    place ∈ set.builtByExport shelf registry dependencies ↔ set.Defers registry place := by
  constructor
  · exact defers_of_mem_builtByExport hset
  · rintro ⟨label, child, hnode⟩
    exact hnode.builtBySchema_subset rfl dependencies List.mem_cons_self

end Writing

/-- Exporting a set that was just compiled forces exactly the lazy nodes that stand for lazy
elements outside signatures, however deep, whatever the dependency map says; and in a workspace
these nodes are built by then, besides those that were built before. -/
theorem export_forces_exposed {set : SchemaSet} (hsorted : Keyed.Sorted set.elements)
    (w : Workspace) (settings : CompilerSettings) (exporter : ExportSettings)
    (dependencies : List (String × List String)) (place : Place) :
    let compiled := set.compile settings (.ofSet w.nextId)
    let live := LiveSet.compile settings (.ofSet w.nextId) set
    ((live.perform (.exportWith exporter dependencies)).2.Forced place ↔
      ∃ child, set.Exposes (.ofSet w.nextId) place (.lazy child false)) ∧
    (place ∈ ((w.compile settings set).2.exportWith exporter dependencies w.nextId
        compiled).2.built ↔
      place ∈ w.built ∨ ∃ child, set.Exposes (.ofSet w.nextId) place (.lazy child false)) := by
  intro compiled live
  have hfound : (w.compile settings set).2.find? w.nextId = some compiled := Shelf.set?_put _ _ _
  have hstands : Stands (w.compile settings set).2.shelf (.ofSet w.nextId) compiled :=
    .of_compile (show (w.compile settings set).2.shelf.set? (.ofSet w.nextId) = _ from hfound)
  have hbuilt : place ∈ compiled.builtByExport (w.compile settings set).2.shelf (.ofSet w.nextId)
      dependencies ↔ ∃ child, set.Exposes (.ofSet w.nextId) place (.lazy child false) := by
    rw [mem_builtByExport_iff hstands, SchemaSet.defers_compile_iff]
  constructor
  · rw [LiveSet.forced_perform, LiveSet.outcome_ask_compile hsorted hfound, ← hbuilt]
    exact or_iff_left LiveSet.not_forced_compile
  · rw [Workspace.exportWith, Workspace.mem_built_mark, hbuilt, or_comm]
    rfl

/-- An archive whose shelves are put off, and each shelf again; whoever calls for a book names it
later. -/
def archive : SchemaSet :=
  ⟨[("Archive", .object
    [("call", .function [.lazy (.simple .string false) false] none true),
      ("shelves", .lazy (.array (.lazy (.reference "Archive" false) false) false) true)] false)]⟩

/-- An export forces the shelves and each of them, but not the book that is called for. -/
theorem export_forces_exposed_archive :
    let exported := fun exporter dependencies =>
      ((LiveSet.compile {} (.ofSet 0) archive).perform (.exportWith exporter dependencies)).2
    let entry := Place.ofEntry (.ofSet 0) "Archive"
    Keyed.Sorted archive.elements ∧ ∀ exporter dependencies,
      (exported exporter dependencies).Forced ((entry.child 1).child 0) ∧
      (exported exporter dependencies).Forced ((((entry.child 1).child 0).child 0).child 0) ∧
      ¬ (exported exporter dependencies).Forced (((entry.child 0).child 0).child 0) := by
  intro exported entry
  have hsorted : Keyed.Sorted archive.elements := List.pairwise_singleton _ _
  have hroot : archive.Exposes (.ofSet 0) entry _ := .entry rfl
  have hcall : archive.Exposes (.ofSet 0) ((entry.child 0).child 0) (.function _ none false) :=
    .beneath (.beneath hroot (by simp) 0 rfl) (by simp) 0 rfl
  have hshelves : archive.Exposes (.ofSet 0) ((entry.child 1).child 0) (.lazy _ false) :=
    .beneath (.beneath hroot (by simp) 1 rfl) (by simp) 0 rfl
  have hshelf : archive.Exposes (.ofSet 0) ((((entry.child 1).child 0).child 0).child 0)
      (.lazy _ false) :=
    .beneath (.beneath hshelves (by simp) 0 rfl) (by simp) 0 rfl
  refine ⟨hsorted, fun exporter dependencies => ?_⟩
  have hforced := fun place =>
    (export_forces_exposed hsorted {} {} exporter dependencies place).1
  refine ⟨(hforced _).2 ⟨_, hshelves⟩, (hforced _).2 ⟨_, hshelf⟩, fun h => ?_⟩
  obtain ⟨book, hbook⟩ := (hforced _).1 h
  exact hcall.not_exposes_child 0 hbook

end SchemaSets
