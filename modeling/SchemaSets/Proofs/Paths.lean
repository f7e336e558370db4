import Mathlib.Data.List.Chain
import SchemaSets.Proofs.Dangling

/-!
# Closures hold what paths lead to

A path is written down stop by stop: each stop but the last is the name of an entry,
and the entry depends on the next stop.  The last stop may be a name that the set does
not have, and nothing comes after it.

The search that makes a closure starts from all successors of a name at once.  It may
as well be started again from each of them in turn, as long as it keeps the names that
it met (`search_append`): a name met from an earlier successor is not looked at again,
and nothing is lost by it.  The name itself is not met at the start.  So it is in its
own closure only if some path comes back to it, and such a path may be told from any
of its stops (`OnCycle`).

## Main results

* `closure_eq_paths` — closures, the dependency map and the missing names of a set, told
  by paths and by direct dependencies.
-/

namespace SchemaSets

open Relation

namespace SchemaSet

variable {set : SchemaSet} {name other : String}

/-- A list of stops, each of which but the last is an entry that depends on the next. -/
def IsPath (set : SchemaSet) (stops : List String) : Prop :=
  stops.IsChain fun name other => ∃ e, set.get? name = some e ∧ other ∈ e.dependencies

/-- A name is one of the stops of a path that comes back to where it started. -/
def OnCycle (set : SchemaSet) (name : String) : Prop :=
  ∃ first between, set.IsPath (first :: between ++ [first]) ∧ name ∈ first :: between

/-! ## Paths and dependencies -/

/-- A step of a path is a direct dependency. -/
theorem depends_iff_exists : set.Depends name other ↔
    ∃ e, set.get? name = some e ∧ other ∈ e.dependencies := by
  rw [Depends, successors]
  cases set.get? name <;> simp

theorem isPath_iff {stops : List String} : set.IsPath stops ↔ stops.IsChain set.Depends := by
  rw [IsPath]
  simp only [← depends_iff_exists]

/-- One or more dependencies are a path. -/
theorem transGen_depends_iff : TransGen set.Depends name other ↔
    ∃ between, set.IsPath (name :: between ++ [other]) := by
  constructor
  · intro h
    obtain ⟨last, hpath, hlast⟩ := TransGen.tail'_iff.1 h
    obtain ⟨between, hchain, hend⟩ := List.exists_isChain_cons_of_relationReflTransGen hpath
    refine ⟨between, isPath_iff.2 (hchain.append (.singleton _) ?_)⟩
    rintro stop hstop next hnext
    rw [List.getLast?_eq_some_getLast (List.cons_ne_nil _ _), hend] at hstop
    cases hstop
    cases hnext
    exact hlast
  · rintro ⟨between, hpath⟩
    have hchain := isPath_iff.1 hpath
    cases between with
    | nil => exact .single (List.isChain_pair.1 hchain)
    | cons next rest =>
        obtain ⟨hfirst, hrest⟩ := List.isChain_cons_cons.1 hchain
        exact .head' hfirst (List.relationReflTransGen_of_exists_isChain_cons _ hrest
          (List.getLast_append_singleton (next :: rest)))

/-- A name is on a cycle exactly if one or more dependencies lead back to it. -/
theorem onCycle_iff : set.OnCycle name ↔ TransGen set.Depends name name := by
  constructor
  · rintro ⟨first, between, hpath, hmem⟩
    have hround := transGen_depends_iff.2 ⟨between, hpath⟩
    rcases List.mem_cons.1 hmem with rfl | hinner
    · exact hround
    · -- the path is cut at the name, and its two parts are put together the other way round
      obtain ⟨before, after, rfl⟩ := List.append_of_mem hinner
      rw [List.cons_append, List.append_assoc, List.cons_append, ← List.cons_append, isPath_iff,
        List.isChain_split] at hpath
      have hto := transGen_depends_iff.2 ⟨before, isPath_iff.2 hpath.1⟩
      have hback := transGen_depends_iff.2 ⟨after, isPath_iff.2 hpath.2⟩
      exact hback.trans hto
  · intro h
    obtain ⟨between, hpath⟩ := transGen_depends_iff.1 h
    exact ⟨name, between, hpath, List.mem_cons_self⟩

/-! ## Searches that are started again -/

/-- A search from some names and then from others is one search. -/
theorem search_append (met first rest : List String) :
    set.search met (first ++ rest) = set.search (set.search met first) rest := by
  fun_induction search set met first with
  | case1 met => rw [List.nil_append]
  | case2 met name todo hmet ih =>
      rw [List.cons_append, search, dif_pos hmet, ih]
  | case3 met name todo hmet hnone ih =>
      rw [List.cons_append, search, dif_neg hmet]
      split
      · exact ih
      · next e he =>
          rw [hnone] at he
          cases he
  | case4 met name todo hmet e he ih =>
      rw [List.cons_append, search, dif_neg hmet]
      split
      · next hnone =>
          rw [hnone] at he
          cases he
      · next found hfound =>
          rw [he] at hfound
          cases hfound
          rw [← List.append_assoc, ih]

/-- A search from some names is a search from each of them in turn, which keeps what
was met. -/
theorem search_eq_foldl (met todo : List String) :
    set.search met todo = todo.foldl (fun met name => set.search met [name]) met := by
  induction todo generalizing met with
  | nil => rw [search, List.foldl_nil]
  | cons name rest ih =>
      rw [List.foldl_cons, ← ih, ← search_append, List.singleton_append]

/-! ## Closures -/

/-- The names of a set of names ascend. -/
theorem pairwise_nameSet (names : List String) : (Keyed.nameSet names).Pairwise (· < ·) :=
  List.pairwise_map.2 (Keyed.sorted_ofList _).1

/-- Nothing comes after a name that the set does not have. -/
theorem closure_of_get?_eq_none (h : set.get? name = none) : set.closure name = [] := by
  rw [List.eq_nil_iff_forall_not_mem]
  intro other hother
  obtain ⟨next, hnext, -⟩ := TransGen.head'_iff.1 (mem_closure_iff.1 hother)
  obtain ⟨e, he, -⟩ := depends_iff_exists.1 hnext
  rw [h] at he
  cases he

/-- The dependency map has the names of the set. -/
theorem keys_dependencyMap (set : SchemaSet) : Keyed.keys set.dependencyMap = set.names := by
  rw [dependencyMap, Keyed.keys, List.map_map]
  exact List.map_id _

/-- The dependency map has the closures of entries and nothing else. -/
theorem find?_dependencyMap_eq (set : SchemaSet) (name : String) :
    Keyed.find? name set.dependencyMap =
      if set.contains name then some (set.closure name) else none := by
  have hfound := Keyed.find?_filterMap (fun name => some (set.closure name)) set.names name
  have hentry : set.contains name = true ↔ name ∈ set.names := Keyed.contains_iff
  rw [dependencyMap]
  simpa [hentry] using hfound

/-- The closure of a name is found by searches from its direct dependencies, one after
the other, which share the names that they met.  It holds, in order, the names that a
path of one step or more leads to.  A name is in its own closure exactly if it is on a
cycle.  The missing names, in order, are those that some entry depends on and that the
set does not have; each is in a closure, and nothing comes after it or any other name
that the set does not have.  The dependency map has the names of the set, and under
each of them its closure. -/
theorem closure_eq_paths (set : SchemaSet) :
    (∀ name, set.closure name = Keyed.nameSet
      ((set.successors name).foldl (fun met next => set.search met [next]) [])) ∧
    (∀ name other, other ∈ set.closure name ↔
      ∃ between, set.IsPath (name :: between ++ [other])) ∧
    (∀ name, (set.closure name).Pairwise (· < ·)) ∧
    (∀ name, name ∈ set.closure name ↔ set.OnCycle name) ∧
    (∀ name, set.get? name = none → set.closure name = []) ∧
    (∀ target, target ∈ set.unresolved ↔
      (∃ name e, set.get? name = some e ∧ target ∈ e.dependencies) ∧
        set.get? target = none) ∧
    set.unresolved.Pairwise (· < ·) ∧
    (∀ target ∈ set.unresolved,
      (∃ name, target ∈ set.closure name) ∧ set.closure target = []) ∧
    Keyed.keys set.dependencyMap = set.names ∧
    ∀ name, Keyed.find? name set.dependencyMap =
      if set.contains name then some (set.closure name) else none := by
  refine ⟨fun name => ?_, fun name other => ?_, fun name => pairwise_nameSet _, fun name => ?_,
    fun name => closure_of_get?_eq_none, fun target => ?_, pairwise_nameSet _,
    fun target htarget => ?_, ?_, fun name => ?_⟩
  · rw [closure, search_eq_foldl]
  · rw [mem_closure_iff, transGen_depends_iff]
  · rw [mem_closure_iff, onCycle_iff]
  · rw [mem_unresolved_iff]
    simp only [depends_iff_exists]
  · obtain ⟨⟨source, hsource⟩, hnone⟩ := mem_unresolved_iff.1 htarget
    exact ⟨⟨source, mem_closure_iff.2 (.single hsource)⟩, closure_of_get?_eq_none hnone⟩
  · exact keys_dependencyMap set
  · exact find?_dependencyMap_eq set name

end SchemaSet
end SchemaSets
