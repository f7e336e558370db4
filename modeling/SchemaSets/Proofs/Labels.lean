import SchemaSets.Proofs.Laziness

/-!
# Labels foretell descriptions

The compiler writes the label of a lazy node before there is a child, from the element
that the child will be compiled from.  Whoever describes the node later reads the label;
whoever forces it can describe the child.  Both see the same text.

A description is written by one procedure from an element and by another from a
validator.  They agree on every compiled element (`describe_compile`), and a node of a
compiled set is a compiled element, so a label can be compared with the child that it
belongs to (`exists_of_hasNode_lazy`).  What was built in the meantime makes no
difference: a cell that is filled holds what the source of its node gives.

## Main results

* `labels_foretell` — elements and what they compile to have one description, and the
  label of every lazy node is the description of the child that forcing it gives.
-/

namespace SchemaSets

/-- Forces a lazy node and gives its child. -/
def Demand.child (place : Place) (source : Source) : Demand Deferred :=
  .force place source fun child _ => .done child

/-- A child that is forced is what the source gives, read or built. -/
theorem Demand.fst_run_child (place : Place) (source : Source) (memory : Memory) :
    ((child place source).run memory).1 = source.build :=
  fst_run _ _

/-- A compiled element is described without building anything in it. -/
theorem Element.run_describeThrough_plant (policy : UnknownAttributes) (owner : String)
    (registry : Handle) (e : Element) (place : Place) (memory : Memory) :
    ((e.plant policy owner registry).describeThrough place).run memory =
      (e.describe policy, memory) := by
  refine Demand.run_eq ?_ memory
  rw [Deferred.outcome_describeThrough _ rfl, full_plant, builtByDescribe_compile,
    describe_compile]

section Nodes

variable {settings : CompilerSettings} {registry : Handle} {set : SchemaSet}
  {label : Option String}

/-- A lazy node of a compiled set has the label and the child of some element. -/
theorem SchemaSet.exists_of_hasNode_lazy {child : Validator}
    (h : (set.compile settings registry).HasNode (.lazy label child)) :
    ∃ owner e, label = some (Element.describe settings.unknownAttributes e) ∧
      child = e.compile settings.unknownAttributes owner registry := by
  obtain ⟨owner, e, hnode⟩ := exists_of_hasNode h
  obtain ⟨inner, -, hlabel, hchild⟩ := Element.origin_of_compile_eq hnode.symm
  exact ⟨owner, inner, hlabel, hchild⟩

/-- The label of a lazy node of a compiled set is the description of its child. -/
theorem SchemaSet.label_eq_of_hasNode {child : Validator}
    (h : (set.compile settings registry).HasNode (.lazy label child)) :
    label = some child.describe := by
  obtain ⟨owner, e, rfl, rfl⟩ := exists_of_hasNode_lazy h
  rw [Element.describe_compile]

/-- The child of a lazy node of a planted set is described by the label of the node,
without building anything in it. -/
theorem SchemaSet.outcome_describeThrough_child {source : Source}
    (h : (set.plant settings registry).HasNode (.lazy label source)) (place : Place) :
    ∃ text, label = some text ∧ (source.build.describeThrough place).outcome = (text, []) := by
  obtain ⟨owner, e, rfl, hchild⟩ := exists_of_hasNode_lazy (hasNode_full h)
  refine ⟨_, rfl, ?_⟩
  rw [Deferred.outcome_describeThrough _ source.full_build, hchild,
    Element.builtByDescribe_compile, Element.describe_compile]

end Nodes

/-- What an element compiles to is described as the element is, whatever entry it stands
in and whatever handle its references go through, and describing it builds no lazy node.
The label of every lazy node of a compiled set, function signatures and the children of
other lazy nodes included, is the description of its child; and whatever cells are
filled, the child that forcing the node gives is described by the label, and describing
it builds nothing further. -/
theorem labels_foretell :
    (∀ policy owner registry (e : Element),
      (e.compile policy owner registry).describe = e.describe policy ∧
      ∀ place memory, ((e.plant policy owner registry).describeThrough place).run memory =
        (e.describe policy, memory)) ∧
    ∀ settings registry (set : SchemaSet) label,
      (∀ child, (set.compile settings registry).HasNode (.lazy label child) →
        label = some child.describe) ∧
      ∀ source, (set.plant settings registry).HasNode (.lazy label source) →
        ∀ place memory, ∃ text, label = some text ∧
          let forced := (Demand.child place source).run memory
          (forced.1.describeThrough (place.child 0)).run forced.2 = (text, forced.2) := by
  refine ⟨fun policy owner registry e => ⟨?_, ?_⟩, fun settings registry set label =>
    ⟨fun child h => set.label_eq_of_hasNode h, fun source h place memory => ?_⟩⟩
  · exact e.describe_compile policy owner registry
  · exact e.run_describeThrough_plant policy owner registry
  · obtain ⟨text, hlabel, houtcome⟩ := SchemaSet.outcome_describeThrough_child h (place.child 0)
    refine ⟨text, hlabel, ?_⟩
    show (Deferred.describeThrough _ ((Demand.child place source).run memory).1).run _ = _
    rw [Demand.fst_run_child]
    exact Demand.run_eq houtcome _

/-- A clerk takes a form whose reader is put off, and answers it twice over. -/
def clerk : SchemaSet where
  elements := [("clerk", .function [.lazy (.lazy (.enumeration ["form"] true) false) true]
    (some (.reference "clerk" true)) false)]

/-- The form of a clerk is put off twice inside a signature, and the inner label tells what
forcing will show. -/
theorem labels_foretell_clerk :
    let inner : Source := ⟨.enumeration ["form"] true, "clerk", .ignore, .detached⟩
    (clerk.compile {} .detached).HasNode (.lazy (some "any?") inner.full) ∧
    some "any?" = some inner.full.describe ∧
    (clerk.plant {} .detached).HasNode (.lazy (some "any?") inner) ∧
    ∀ place memory, ∃ text, some "any?" = some text ∧
      let forced := (Demand.child place inner).run memory
      (forced.1.describeThrough (place.child 0)).run forced.2 = (text, forced.2) := by
  intro inner
  let outer : Source := ⟨.lazy inner.element false, "clerk", .ignore, .detached⟩
  have hnode : (clerk.plant {} .detached).HasNode (.lazy (some "any?") inner) := by
    -- from the signature to its argument, and from there through one node after the other
    refine ⟨"clerk", _, rfl, .tail (b := .lazy (some "lazy(() => any?)") outer)
      (.tail (b := .optional (.lazy (some "lazy(() => any?)") outer)) (.single ?_) ?_) ?_⟩
    all_goals exact List.mem_cons_self
  have hwhole : (clerk.compile {} .detached).HasNode (.lazy (some "any?") inner.full) :=
    SchemaSet.hasNode_full hnode
  obtain ⟨hcompiled, hforced⟩ := labels_foretell.2 {} .detached clerk (some "any?")
  exact ⟨hwhole, hcompiled _ hwhole, hnode, hforced inner hnode⟩

end SchemaSets
