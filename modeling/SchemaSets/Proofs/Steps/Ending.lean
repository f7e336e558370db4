import SchemaSets.Proofs.Steps.Rendering
import SchemaSets.Proofs.Steps.Walking

/-!
# The procedures come to an end

A set may refer to itself in any way and may hold references to nothing; still
checking a slot, asking for absence and rendering all come to an end, from
every node of the compiled set, whether or not the set still stands on its
shelf.

No structure is used up by a reference, which may lead anywhere in the set.
What goes down when a reference is followed is the number of names that are
left to follow, and the runs of the machines show that this is no accident of
how the procedures were written down: in every state of a run the names of a
chain differ, and all but the last are entries.
-/

namespace SchemaSets

variable {set : SchemaSet} {settings : CompilerSettings} {shelf : Shelf} {registry : Handle}

/-- While a set stands behind a handle, and once nothing stands there, the handle
leads to entries of the set only. -/
theorem mem_names_of_resolve_eq_ok
    (hshelf : shelf.set? registry = some (set.compile settings registry) ∨
      shelf.set? registry = none)
    {target owner : String} {entry : Entry} (h : shelf.resolve registry target owner = .ok entry) :
    target ∈ set.names ∧ ∀ link ∈ entry.validator.links, link.registry = registry := by
  rcases hshelf with hset | hnone
  · have hstands := Stands.of_compile hset
    have hfound := hstands.resolve_eq_ok_iff.1 h
    exact ⟨SchemaSet.names_compile ▸ Keyed.mem_keys_of_find? hfound, hstands.inward hfound⟩
  · rw [Shelf.resolve, hnone] at h
    cases h

/-- Checking any slot, asking for absence and rendering come to an end from every
node of a compiled set.  In a check no chain ever has a name twice, all its
names but the last are entries, and so it is at most one longer than the set;
in a search for absence no name is followed twice. -/
theorem procedures_end
    (hshelf : shelf.set? registry = some (set.compile settings registry) ∨
      shelf.set? registry = none)
    {v : Validator} (hnode : (set.compile settings registry).HasNode v) (slot : Slot)
    (exporter : ExportSettings) :
    ((Walking.machine shelf).Ends (Walking.start v slot) (v.validateSlot shelf slot) ∧
      ∀ s, (Walking.machine shelf).Reaches (Walking.start v slot) s → ∀ chain ∈ s.chains,
        chain.Nodup ∧ chain.tail ⊆ set.names ∧ chain.length ≤ set.size + 1) ∧
    ((Searching.machine shelf).Ends (Searching.start v) (v.mayBeAbsent shelf) ∧
      ∀ s, (Searching.machine shelf).Reaches (Searching.start v) s → s.followed.Nodup) ∧
    (Rendering.machine shelf exporter.definitionsKey).Ends (Rendering.start v)
      (v.schema shelf exporter) := by
  refine ⟨⟨Walking.ends_start shelf v slot, ?_⟩,
    ⟨Searching.ends_start shelf v, fun s hreaches => Searching.once_of_reaches hreaches⟩,
    Rendering.ends_start shelf exporter v⟩
  intro s hreaches chain hchain
  obtain ⟨owner, e, rfl⟩ := SchemaSet.exists_of_hasNode hnode
  have hinward : ∀ link ∈ (e.compile settings.unknownAttributes owner registry).links,
      link.registry = registry :=
    fun link hlink => (Element.mem_links_compile.1 hlink).2.2
  have hsound := Walking.sound_of_reaches (mem_names_of_resolve_eq_ok hshelf) hinward hreaches
  obtain ⟨honce, hknown⟩ := hsound.chains chain hchain
  have hlength := Walking.length_chain_le honce hknown
  rw [SchemaSet.names, Keyed.keys, List.length_map, ← SchemaSet.size] at hlength
  exact ⟨honce, hknown, hlength⟩

/-- Two entries that refer to each other, one of which also refers to nothing. -/
def circular : SchemaSet :=
  .ofList [("a", .union [.reference "b" false, .reference "nothing" false] false),
    ("b", .lazy (.reference "a" true) false)]

/-- The shelf on which the two entries stand. -/
def circularShelf : Shelf := ({} : Shelf).put 0 (circular.compile {} (.ofSet 0))

/-- Everything ends from a reference into the circle, which stands in a lazy node. -/
theorem procedures_end_circular :
    ((Walking.machine circularShelf).Ends (Walking.start (.reference "a" "b" (.ofSet 0)) none)
        (Validator.validateSlot circularShelf (.reference "a" "b" (.ofSet 0)) none) ∧
      ∀ s, (Walking.machine circularShelf).Reaches
          (Walking.start (.reference "a" "b" (.ofSet 0)) none) s →
        ∀ chain ∈ s.chains,
          chain.Nodup ∧ chain.tail ⊆ circular.names ∧ chain.length ≤ circular.size + 1) ∧
    ((Searching.machine circularShelf).Ends (Searching.start (.reference "a" "b" (.ofSet 0)))
        (Validator.mayBeAbsent circularShelf (.reference "a" "b" (.ofSet 0))) ∧
      ∀ s, (Searching.machine circularShelf).Reaches
          (Searching.start (.reference "a" "b" (.ofSet 0))) s → s.followed.Nodup) ∧
    (Rendering.machine circularShelf "definitions").Ends
      (Rendering.start (.reference "a" "b" (.ofSet 0)))
      (Validator.schema circularShelf {} (.reference "a" "b" (.ofSet 0))) := by
  have hshelf : circularShelf.set? (.ofSet 0) = some (circular.compile {} (.ofSet 0)) := rfl
  have hnode : (circular.compile {} (.ofSet 0)).HasNode (.reference "a" "b" (.ofSet 0)) := by
    refine ⟨"b", _, rfl, .tail (b := .optional (.reference "a" "b" (.ofSet 0))) (.single ?_) ?_⟩
    · exact List.mem_singleton_self _
    · exact List.mem_singleton_self _
  exact procedures_end (.inl hshelf) hnode none {}

end SchemaSets
