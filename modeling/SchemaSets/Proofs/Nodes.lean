import SchemaSets.Element.Basic

/-!
# Elements inside elements

An element is a tree, and a statement about elements at any depth is one about
the nodes of that tree.  Function signatures are part of it: no value is ever
checked against them, but they are written down and described like everything
else.

Children stand in lists, in lists of attributes and after a function, so the
generated induction has a motive for each of these.  `Element.induction` has
one motive, and what is known of the children is known of every member.
-/

namespace SchemaSets

namespace Element

/-- Induction over elements, where a property of all children is one hypothesis. -/
@[elab_as_elim]
theorem induction {motive : Element → Prop}
    (literal : ∀ text o, motive (.literal text o))
    (simple : ∀ kind o, motive (.simple kind o))
    (enumeration : ∀ values o, motive (.enumeration values o))
    (object : ∀ attributes o, (∀ a ∈ attributes, motive a.2) → motive (.object attributes o))
    (array : ∀ item o, motive item → motive (.array item o))
    (record : ∀ value o, motive value → motive (.record value o))
    (union : ∀ branches o, (∀ e ∈ branches, motive e) → motive (.union branches o))
    (function : ∀ args returns o, (∀ e ∈ args, motive e) → (∀ r, returns = some r → motive r) →
      motive (.function args returns o))
    (lazy : ∀ child o, motive child → motive (.lazy child o))
    (reference : ∀ target o, motive (.reference target o)) (e : Element) : motive e := by
  induction hsize : sizeOf e using Nat.strongRecOn generalizing e with
  | ind size ih =>
      have next : ∀ child : Element, sizeOf child < sizeOf e → motive child :=
        fun child hchild => ih _ (hsize ▸ hchild) child rfl
      cases e with
      | literal text o => exact literal text o
      | simple kind o => exact simple kind o
      | enumeration values o => exact enumeration values o
      | object attributes o =>
          refine object attributes o fun a ha => next a.2 ?_
          have hmem := List.sizeOf_lt_of_mem ha
          have hpair : sizeOf a = 1 + sizeOf a.1 + sizeOf a.2 := rfl
          simp only [Element.object.sizeOf_spec]
          omega
      | array item o =>
          refine array item o (next item ?_)
          simp only [Element.array.sizeOf_spec]
          omega
      | record value o =>
          refine record value o (next value ?_)
          simp only [Element.record.sizeOf_spec]
          omega
      | union branches o =>
          refine union branches o fun child hchild => next child ?_
          have hmem := List.sizeOf_lt_of_mem hchild
          simp only [Element.union.sizeOf_spec]
          omega
      | function args returns o =>
          refine function args returns o (fun child hchild => next child ?_) fun r hr => next r ?_
          · have hmem := List.sizeOf_lt_of_mem hchild
            simp only [Element.function.sizeOf_spec]
            omega
          · subst hr
            simp only [Element.function.sizeOf_spec, Option.some.sizeOf_spec]
            omega
      | lazy child o =>
          refine lazy child o (next child ?_)
          simp only [Element.lazy.sizeOf_spec]
          omega
      | reference target o => exact reference target o

mutual
/-- The nodes of an element, itself among them. -/
def nodes : Element → List Element
  | .literal text o => [.literal text o]
  | .simple kind o => [.simple kind o]
  | .enumeration values o => [.enumeration values o]
  | .object attributes o => .object attributes o :: nodesOfAttributes attributes
  | .array item o => .array item o :: nodes item
  | .record value o => .record value o :: nodes value
  | .union branches o => .union branches o :: nodesOfList branches
  | .function args none o => .function args none o :: nodesOfList args
  | .function args (some returns) o =>
    .function args (some returns) o :: (nodesOfList args ++ nodes returns)
  | .lazy child o => .lazy child o :: nodes child
  | .reference target o => [.reference target o]
/-- The nodes of a list of elements. -/
def nodesOfList : List Element → List Element
  | [] => []
  | e :: rest => nodes e ++ nodesOfList rest
/-- The nodes of a list of attributes. -/
def nodesOfAttributes : List (String × Element) → List Element
  | [] => []
  | (_, e) :: rest => nodes e ++ nodesOfAttributes rest
end

/-- A property of every node of an element. -/
def Everywhere (P : Element → Prop) (e : Element) : Prop := ∀ node ∈ e.nodes, P node

instance {P : Element → Prop} [DecidablePred P] : DecidablePred (Everywhere P) := fun e =>
  inferInstanceAs (Decidable (∀ node ∈ e.nodes, P node))

section Everywhere

variable {P : Element → Prop} {o : Bool}

private theorem forall_mem_nodesOfList {es : List Element} :
    (∀ node ∈ nodesOfList es, P node) ↔ ∀ e ∈ es, e.Everywhere P := by
  induction es with
  | nil => simp [nodesOfList]
  | cons e es ih => rw [nodesOfList, List.forall_mem_append, ih, List.forall_mem_cons, Everywhere]

private theorem forall_mem_nodesOfAttributes {attributes : List (String × Element)} :
    (∀ node ∈ nodesOfAttributes attributes, P node) ↔ ∀ a ∈ attributes, a.2.Everywhere P := by
  induction attributes with
  | nil => simp [nodesOfAttributes]
  | cons a rest ih =>
      rw [nodesOfAttributes, List.forall_mem_append, ih, List.forall_mem_cons, Everywhere]

theorem everywhere_literal_iff {text : String} :
    (literal text o).Everywhere P ↔ P (.literal text o) :=
  List.forall_mem_singleton

theorem everywhere_simple_iff {kind : SimpleKind} :
    (simple kind o).Everywhere P ↔ P (.simple kind o) :=
  List.forall_mem_singleton

theorem everywhere_enumeration_iff {values : List String} :
    (enumeration values o).Everywhere P ↔ P (.enumeration values o) :=
  List.forall_mem_singleton

theorem everywhere_reference_iff {target : String} :
    (reference target o).Everywhere P ↔ P (.reference target o) :=
  List.forall_mem_singleton

theorem everywhere_object_iff {attributes : List (String × Element)} :
    (object attributes o).Everywhere P ↔
      P (.object attributes o) ∧ ∀ a ∈ attributes, a.2.Everywhere P := by
  rw [Everywhere, nodes, List.forall_mem_cons, forall_mem_nodesOfAttributes]

theorem everywhere_array_iff {item : Element} :
    (array item o).Everywhere P ↔ P (.array item o) ∧ item.Everywhere P :=
  List.forall_mem_cons

theorem everywhere_record_iff {value : Element} :
    (record value o).Everywhere P ↔ P (.record value o) ∧ value.Everywhere P :=
  List.forall_mem_cons

theorem everywhere_union_iff {branches : List Element} :
    (union branches o).Everywhere P ↔
      P (.union branches o) ∧ ∀ e ∈ branches, e.Everywhere P := by
  rw [Everywhere, nodes, List.forall_mem_cons, forall_mem_nodesOfList]

theorem everywhere_function_iff {args : List Element} {returns : Option Element} :
    (function args returns o).Everywhere P ↔ P (.function args returns o) ∧
      (∀ e ∈ args, e.Everywhere P) ∧ ∀ r, returns = some r → r.Everywhere P := by
  cases returns with
  | none =>
      rw [Everywhere, nodes, List.forall_mem_cons, forall_mem_nodesOfList]
      simp
  | some r =>
      rw [Everywhere, nodes, List.forall_mem_cons, List.forall_mem_append, forall_mem_nodesOfList]
      simp [Everywhere]

theorem everywhere_lazy_iff {child : Element} :
    (lazy child o).Everywhere P ↔ P (.lazy child o) ∧ child.Everywhere P :=
  List.forall_mem_cons

end Everywhere

/-! ## One level down -/

/-- What lies right below an element: under a mark the element without it, else
the elements it is made of. -/
def beneath (e : Element) : List Element :=
  if e.isOptional then [e.withOptional false]
  else
    match e with
    | .literal .. | .simple .. | .enumeration .. | .reference .. => []
    | .object attributes _ => attributes.map (·.2)
    | .array child _ | .record child _ | .lazy child _ => [child]
    | .union branches _ => branches
    | .function args returns _ => args ++ returns.toList

/-- A property that does not look at marks holds everywhere below an element if
it holds everywhere in it. -/
theorem Everywhere.of_mem_beneath {P : Element → Prop}
    (hmarks : ∀ e o, P e → P (e.withOptional o)) {e child : Element} (h : e.Everywhere P)
    (hchild : child ∈ e.beneath) : child.Everywhere P := by
  unfold beneath at hchild
  split at hchild
  · cases List.mem_singleton.1 hchild
    cases e with
    | literal | simple | enumeration | reference =>
        exact List.forall_mem_singleton.2 (hmarks _ false (List.forall_mem_singleton.1 h))
    | object attributes o =>
        obtain ⟨hself, heach⟩ := everywhere_object_iff.1 h
        exact everywhere_object_iff.2 ⟨hmarks _ false hself, heach⟩
    | array item o =>
        obtain ⟨hself, hitem⟩ := everywhere_array_iff.1 h
        exact everywhere_array_iff.2 ⟨hmarks _ false hself, hitem⟩
    | record value o =>
        obtain ⟨hself, hvalue⟩ := everywhere_record_iff.1 h
        exact everywhere_record_iff.2 ⟨hmarks _ false hself, hvalue⟩
    | union branches o =>
        obtain ⟨hself, heach⟩ := everywhere_union_iff.1 h
        exact everywhere_union_iff.2 ⟨hmarks _ false hself, heach⟩
    | function args returns o =>
        obtain ⟨hself, hsignature⟩ := everywhere_function_iff.1 h
        exact everywhere_function_iff.2 ⟨hmarks _ false hself, hsignature⟩
    | lazy inner o =>
        obtain ⟨hself, hinner⟩ := everywhere_lazy_iff.1 h
        exact everywhere_lazy_iff.2 ⟨hmarks _ false hself, hinner⟩
  · cases e with
    | literal | simple | enumeration | reference => cases hchild
    | object attributes o =>
        obtain ⟨a, ha, rfl⟩ := List.mem_map.1 hchild
        exact (everywhere_object_iff.1 h).2 a ha
    | array item o =>
        cases List.mem_singleton.1 hchild
        exact (everywhere_array_iff.1 h).2
    | record value o =>
        cases List.mem_singleton.1 hchild
        exact (everywhere_record_iff.1 h).2
    | union branches o => exact (everywhere_union_iff.1 h).2 child hchild
    | function args returns o =>
        obtain ⟨-, hargs, hreturns⟩ := everywhere_function_iff.1 h
        rcases List.mem_append.1 hchild with harg | hreturn
        · exact hargs child harg
        · exact hreturns child (Option.mem_toList.1 hreturn)
    | lazy inner o =>
        cases List.mem_singleton.1 hchild
        exact (everywhere_lazy_iff.1 h).2

/-- An element lists its attributes in name order. -/
def ListsInOrder : Element → Prop
  | .object attributes _ => Keyed.Sorted attributes
  | _ => True

instance : DecidablePred ListsInOrder
  | .object attributes _ => inferInstanceAs (Decidable (attributes.Pairwise _))
  | .literal .. | .simple .. | .enumeration .. | .array .. | .record .. | .union ..
  | .function .. | .lazy .. | .reference .. => isTrue trivial

end Element

/-- The entries of a set stand in name order, and so do the attributes of every
object inside them. -/
structure SchemaSet.Ordered (set : SchemaSet) : Prop where
  entries : Keyed.Sorted set.elements
  attributes : ∀ entry ∈ set.elements, entry.2.Everywhere Element.ListsInOrder

instance (set : SchemaSet) : Decidable set.Ordered :=
  decidable_of_iff (set.elements.Pairwise (fun a b : String × Element => a.1 < b.1) ∧
      ∀ entry ∈ set.elements, entry.2.Everywhere Element.ListsInOrder)
    ⟨fun h => ⟨h.1, h.2⟩, fun h => ⟨h.entries, h.attributes⟩⟩

end SchemaSets
