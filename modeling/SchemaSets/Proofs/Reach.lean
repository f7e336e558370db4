import Mathlib.Logic.Relation
import SchemaSets.Export

/-!
# What a name leads to

A name refers to another if its element holds a reference to it.  The search of
`Dependency` walks this relation from the direct dependencies of a name, with
the one reserved name taken out.  Whatever was met is settled, except for the
names that are still to be looked at: this is the invariant of the search
(`Settled`), and at the end nothing is left to be looked at, so the names met
are closed under following dependencies.

A closure thus holds the names that one or more dependencies lead to
(`mem_closure_iff`), and the definitions of a document are those of its entry
and of what the entry leads to (`mem_scope_iff`).
-/

namespace SchemaSets

open Relation

namespace SchemaSet

variable {set : SchemaSet}

/-- The entry of a name holds a reference to another name, outside function
signatures. -/
def Refers (set : SchemaSet) (name other : String) : Prop :=
  ∃ e, set.get? name = some e ∧ other ∈ e.targets

/-- An entry refers to the targets of its element. -/
theorem refers_iff {name other : String} {e : Element} (h : set.get? name = some e) :
    set.Refers name other ↔ other ∈ e.targets := by
  simp [Refers, h]

/-- A name depends directly on another. -/
def Depends (set : SchemaSet) (name other : String) : Prop := other ∈ set.successors name

/-- Direct dependencies are the references other than those to the reserved
name. -/
theorem depends_iff {name other : String} :
    set.Depends name other ↔ set.Refers name other ∧ other ≠ reservedName := by
  rw [Depends, successors, Refers]
  split
  · next e h => simp [h, Element.dependencies, and_comm]
  · next h => simp [h]

/-- Where nothing refers to the reserved name, all references count. -/
theorem depends_eq_refers (h : ∀ entry ∈ set.elements, reservedName ∉ entry.2.targets) :
    set.Depends = set.Refers := by
  funext name other
  refine propext (depends_iff.trans (and_iff_left_of_imp ?_))
  rintro ⟨e, he, hmem⟩ rfl
  exact h _ (Keyed.mem_of_find? he) hmem

/-! ## The search -/

/-- All names on which the names met depend were met or are still to be looked
at. -/
def Settled (set : SchemaSet) (met todo : List String) : Prop :=
  ∀ name ∈ met, ∀ other, set.Depends name other → other ∈ met ∨ other ∈ todo

/-- The search keeps what it met, and meets what it was to look at. -/
private theorem subset_search (met todo : List String) :
    met ⊆ set.search met todo ∧ todo ⊆ set.search met todo := by
  fun_induction search set met todo with
  | case1 met => simp
  | case2 met name rest hmet ih =>
      exact ⟨ih.1, List.cons_subset.2 ⟨ih.1 hmet, ih.2⟩⟩
  | case3 met name rest hmet hnone ih =>
      rw [List.cons_subset] at ih
      exact ⟨ih.1.2, List.cons_subset.2 ⟨ih.1.1, ih.2⟩⟩
  | case4 met name rest hmet e he ih =>
      rw [List.cons_subset, List.append_subset] at ih
      exact ⟨ih.1.2, List.cons_subset.2 ⟨ih.1.1, ih.2.2⟩⟩

/-- The search ends with names that are closed under dependencies. -/
private theorem settled_search {met todo : List String} (h : set.Settled met todo) :
    set.Settled (set.search met todo) [] := by
  fun_induction search set met todo with
  | case1 met => exact h
  | case2 met name rest hmet ih =>
      refine ih fun source hsource other hdepends => ?_
      rcases h source hsource other hdepends with hold | htodo
      · exact .inl hold
      · rcases List.mem_cons.1 htodo with rfl | hrest
        · exact .inl hmet
        · exact .inr hrest
  | case3 met name rest hmet hnone ih =>
      refine ih fun source hsource other hdepends => ?_
      rcases List.mem_cons.1 hsource with rfl | hsource
      · obtain ⟨⟨e, he, -⟩, -⟩ := depends_iff.1 hdepends
        rw [hnone] at he
        cases he
      · have := h source hsource other hdepends
        simp only [List.mem_cons] at this ⊢
        grind
  | case4 met name rest hmet e he ih =>
      refine ih fun source hsource other hdepends => ?_
      rcases List.mem_cons.1 hsource with rfl | hsource
      · rw [Depends, successors, he] at hdepends
        exact .inr (List.mem_append_left _ hdepends)
      · have := h source hsource other hdepends
        simp only [List.mem_cons, List.mem_append] at this ⊢
        grind

/-- Whatever the search meets can be reached from where it started. -/
private theorem reaches_of_mem_search {met todo : List String} {other : String}
    (h : other ∈ set.search met todo) :
    other ∈ met ∨ ∃ name ∈ todo, ReflTransGen set.Depends name other := by
  fun_induction search set met todo with
  | case1 met => exact .inl h
  | case2 met name rest hmet ih =>
      rcases ih h with hold | ⟨source, hsource, hpath⟩
      · exact .inl hold
      · exact .inr ⟨source, List.mem_cons_of_mem _ hsource, hpath⟩
  | case3 met name rest hmet hnone ih =>
      rcases ih h with hold | ⟨source, hsource, hpath⟩
      · rcases List.mem_cons.1 hold with rfl | hold
        · exact .inr ⟨other, List.mem_cons_self, .refl⟩
        · exact .inl hold
      · exact .inr ⟨source, List.mem_cons_of_mem _ hsource, hpath⟩
  | case4 met name rest hmet e he ih =>
      rcases ih h with hold | ⟨source, hsource, hpath⟩
      · rcases List.mem_cons.1 hold with rfl | hold
        · exact .inr ⟨other, List.mem_cons_self, .refl⟩
        · exact .inl hold
      · rcases List.mem_append.1 hsource with hsource | hsource
        · have hdepends : set.Depends name source := by rwa [Depends, successors, he]
          exact .inr ⟨name, List.mem_cons_self, .head hdepends hpath⟩
        · exact .inr ⟨source, List.mem_cons_of_mem _ hsource, hpath⟩

/-! ## Closures -/

/-- A closure holds what one or more dependencies lead to. -/
theorem mem_closure_iff {name other : String} :
    other ∈ set.closure name ↔ TransGen set.Depends name other := by
  rw [closure, Keyed.mem_nameSet]
  constructor
  · intro h
    rcases reaches_of_mem_search h with hold | ⟨source, hsource, hpath⟩
    · cases hold
    · exact .head' hsource hpath
  · intro h
    have hclosed : set.Settled (set.search [] (set.successors name)) [] :=
      settled_search (by simp [Settled])
    induction h with
    | single hdepends => exact (subset_search _ _).2 hdepends
    | tail _ hdepends ih =>
        rcases hclosed _ ih _ hdepends with h | h
        · exact h
        · cases h

/-- The dependency map has the closure of every entry. -/
theorem find?_dependencyMap {name : String} (h : set.contains name = true) :
    Keyed.find? name set.dependencyMap = some (set.closure name) := by
  exact Keyed.find?_map set.closure (Keyed.contains_iff.1 h)

/-- The definitions of a document are those of its entry and of what the entry
leads to. -/
theorem mem_scope_iff {name other : String} (h : set.contains name = true) :
    other ∈ CompiledSet.scope set.dependencyMap name ↔
      ReflTransGen set.Depends name other := by
  rw [CompiledSet.scope, Keyed.mem_nameSet, find?_dependencyMap h, Option.getD_some,
    List.mem_cons, mem_closure_iff, reflTransGen_iff_eq_or_transGen]

end SchemaSet
end SchemaSets
