import SchemaSets.Error
import SchemaSets.Lazy.Place
import SchemaSets.Proofs.Deferred.Basic

/-!
# Traversals that ask for children

A traversal that comes to a lazy node asks for its child and goes on with what it
gets.  `Demand` is such a traversal as data: a result, or a question with what
follows each answer.  The only answer there is is what the source of the node gives,
and a traversal may rely on it.

Questions are answered from a memory of cells (`run`).  A cell that was filled is
read; else the child is built and the cell filled.  What a traversal comes to with
everything built anew, and which places it asks for, is its `outcome`.

Memory makes no difference to the result (`fst_run`), no cell is ever lost
(`suffix_run`), and those that are filled afterwards are those that were filled and
those that were asked for (`mem_places_run`).  These three are about traversals of
any kind; the modules after this one only have to tell the outcomes of theirs.
-/

namespace SchemaSets

/-- A traversal that ends in a result or asks for the child of a lazy node. -/
inductive Demand (α : Type)
  | done (result : α)
  | force (place : Place) (source : Source)
      (next : (child : Deferred) → child = source.build → Demand α)

/-- A filled cell: the lazy node that it belongs to and the child that was built. -/
structure Cell where
  place : Place
  source : Source
  child : Deferred
  built : child = source.build

/-- The cells filled so far, the last first. -/
abbrev Memory := List Cell

namespace Memory

/-- The places of the lazy nodes whose cells are filled. -/
def places (memory : Memory) : List Place := memory.map Cell.place

/-- What the cell of a lazy node holds, if it is filled. -/
def child? (place : Place) (source : Source) :
    Memory → Option { child : Deferred // child = source.build }
  | [] => none
  | cell :: rest =>
    if h : cell.place = place ∧ cell.source = source then
      some ⟨cell.child, h.2 ▸ cell.built⟩
    else child? place source rest

/-- A cell that holds something is filled. -/
theorem mem_places_of_child? {memory : Memory} {place : Place} {source : Source}
    {child : { child : Deferred // child = source.build }}
    (h : memory.child? place source = some child) : place ∈ memory.places := by
  induction memory with
  | nil => cases h
  | cons cell rest ih =>
      rw [child?] at h
      split at h
      · next hcell => exact List.mem_cons.2 (.inl hcell.1.symm)
      · exact List.mem_cons_of_mem _ (ih h)

end Memory

namespace Demand

variable {α β : Type}

/-- Goes on with the result of a traversal. -/
def andThen (f : α → Demand β) : Demand α → Demand β
  | .done result => f result
  | .force place source next => .force place source fun child h => (next child h).andThen f

/-- Changes the result of a traversal. -/
def map (f : α → β) (demand : Demand α) : Demand β := demand.andThen fun result => .done (f result)

/-- One traversal for each item, and their results. -/
def each (f : α → Demand β) : List α → Demand (List β)
  | [] => .done []
  | x :: rest => (f x).andThen fun result => (each f rest).map (result :: ·)

/-- The result of a traversal with everything built anew, and the places it asks for. -/
def outcome : Demand α → α × List Place
  | .done result => (result, [])
  | .force place source next =>
    let (result, places) := (next source.build rfl).outcome
    (result, place :: places)

/-- The result of a traversal and the memory after it. -/
def run : Demand α → Memory → α × Memory
  | .done result, memory => (result, memory)
  | .force place source next, memory =>
    match memory.child? place source with
    | some child => (next child.1 child.2).run memory
    | none => (next source.build rfl).run (⟨place, source, source.build, rfl⟩ :: memory)

/-! ## Outcomes -/

@[simp] theorem outcome_done (result : α) : (Demand.done result).outcome = (result, []) := rfl

/-- A traversal that goes on asks for what both of its parts ask for. -/
@[simp] theorem outcome_andThen (demand : Demand α) (f : α → Demand β) :
    (demand.andThen f).outcome =
      ((f demand.outcome.1).outcome.1, demand.outcome.2 ++ (f demand.outcome.1).outcome.2) := by
  induction demand with
  | done result => rfl
  | force place source next ih =>
      rw [andThen, outcome, ih]
      rfl

@[simp] theorem outcome_map (f : α → β) (demand : Demand α) :
    (demand.map f).outcome = (f demand.outcome.1, demand.outcome.2) := by
  rw [map, outcome_andThen, outcome_done, List.append_nil]

/-- Several traversals give what each of them gives and ask for what each asks for. -/
theorem outcome_each (f : α → Demand β) (xs : List α) :
    (each f xs).outcome =
      (xs.map fun x => (f x).outcome.1, xs.flatMap fun x => (f x).outcome.2) := by
  induction xs with
  | nil => rfl
  | cons x xs ih =>
      rw [each, outcome_andThen, outcome_map, ih, List.map_cons, List.flatMap_cons]

/-! ## Runs -/

/-- With any memory a traversal has the same result. -/
theorem fst_run (demand : Demand α) (memory : Memory) :
    (demand.run memory).1 = demand.outcome.1 := by
  induction demand generalizing memory with
  | done result => rfl
  | force place source next ih =>
      rw [run]
      split
      · next child _ =>
          obtain ⟨child, rfl⟩ := child
          exact ih _ rfl memory
      · exact ih _ rfl _

/-- A traversal that asks for nothing leaves the memory as it is. -/
theorem run_eq {demand : Demand α} {result : α} (h : demand.outcome = (result, []))
    (memory : Memory) : demand.run memory = (result, memory) := by
  cases demand with
  | done given => exact congrArg (·, memory) (congrArg Prod.fst h)
  | force place source next => exact absurd (congrArg Prod.snd h) (List.cons_ne_nil _ _)

/-- A traversal leaves the cells that were filled as they are. -/
theorem suffix_run (demand : Demand α) (memory : Memory) : memory <:+ (demand.run memory).2 := by
  induction demand generalizing memory with
  | done result => exact List.suffix_rfl
  | force place source next ih =>
      rw [run]
      split
      · next child _ => exact ih child.1 child.2 memory
      · exact (List.suffix_cons _ memory).trans (ih _ rfl _)

/-- After a traversal the cells are filled that were, and those it asks for. -/
theorem mem_places_run {demand : Demand α} {memory : Memory} {place : Place} :
    place ∈ Memory.places (demand.run memory).2 ↔
      place ∈ demand.outcome.2 ∨ place ∈ memory.places := by
  induction demand generalizing memory with
  | done result => simp [run, outcome]
  | force asked source next ih =>
      have houtcome : place ∈ (Demand.force asked source next).outcome.2 ↔
          place = asked ∨ place ∈ (next source.build rfl).outcome.2 := List.mem_cons
      rw [run, houtcome]
      split
      · next child hchild =>
          have hfilled := Memory.mem_places_of_child? hchild
          obtain ⟨child, rfl⟩ := child
          rw [ih]
          constructor
          · exact Or.imp_left .inr
          · rintro ((rfl | hnext) | hmemory)
            · exact .inr hfilled
            · exact .inl hnext
            · exact .inr hmemory
      · rw [ih, Memory.places, List.map_cons, List.mem_cons, ← Memory.places, or_left_comm,
          ← or_assoc]

end Demand
end SchemaSets
