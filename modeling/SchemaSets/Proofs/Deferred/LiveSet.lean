import SchemaSets.Proofs.Deferred.Describing
import SchemaSets.Proofs.Deferred.Rendering
import SchemaSets.Proofs.Sessions

/-!
# Live sets

A live set is a compiled set while it is used: what was planted, the descriptions that
were written when it was compiled, and the cells filled so far.  Compiling describes
every entry, and each operation runs a traversal against the cells that it finds.

What an operation on a planted set gives and asks for is what the operation on the
compiled set gives and builds (`outcome_ask`).  The answers of a session are those of
its operations (`answers_run`), and the lazy nodes forced in it are those that its
operations ask for (`forced_run`); no cell is ever emptied (`memory_suffix_run`).
-/

namespace SchemaSets

/-! ## Operations on planted sets -/

namespace Planted

/-- Asks about an entry at its place, if there is one of that name. -/
def atEntry (set : Planted) (name : String) (ask : Place → Deferred → Demand Answer) :
    Demand Answer :=
  match set.get? name with
  | some v => ask (.ofEntry set.registry name) v
  | none => .done (.unknownEntry name)

/-- Writes the descriptions of all entries. -/
def describeThrough (set : Planted) : Demand (List (String × String)) :=
  .each (fun entry => (entry.2.describeThrough (.ofEntry set.registry entry.1)).map
    (Prod.mk entry.1)) set.entries

/-- The traversal of an operation, where the descriptions of the entries are known. -/
def ask (set : Planted) (descriptions : List (String × String)) : Operation → Demand Answer
  | .check name slot => set.atEntry name fun place v =>
    (set.walkThrough [] place v slot).map fun outcome => .report (outcome.map Report.mk)
  | .accepts name slot => set.atEntry name fun place v =>
    (set.walkThrough [] place v slot).map fun outcome => .verdict (outcome.map List.isEmpty)
  | .mayBeAbsent name => set.atEntry name fun place v =>
    (set.absenceThrough ⟨place, v⟩).map .absence
  | .schema settings name => set.atEntry name fun place v =>
    (set.schemaThrough settings.definitionsKey place v).map fun members =>
      .schema (.object members)
  | .exportWith settings dependencies => (set.exportThrough settings dependencies).map .documents
  | .describe name => set.atEntry name fun place v => (v.describeThrough place).map .description
  | .descriptions => .done (.descriptions descriptions)

section Outcomes

variable {planted : Planted} {shelf : Shelf} {set : CompiledSet}

/-- What is asked about an entry comes out as what is given of it and built for it. -/
theorem Yields.outcome_atEntry {id : Nat} (hyields : planted.Yields shelf set)
    (hregistry : planted.registry = .ofSet id) {name : String}
    {ask : Place → Deferred → Demand Answer} {give : Located → Answer}
    {places : Located → List Place}
    (h : ∀ v, planted.get? name = some v →
      (ask (.ofEntry planted.registry name) v).outcome =
        (give (.ofEntry planted.registry name v.full),
          places (.ofEntry planted.registry name v.full))) :
    (planted.atEntry name ask).outcome =
      (Operation.answer.atEntry id set name give, Operation.builds.atEntry id set name places) := by
  rw [atEntry, Operation.answer.atEntry, Operation.builds.atEntry, CompiledSet.located?,
    hyields.get?_eq, ← hregistry]
  cases hv : planted.get? name with
  | none => rfl
  | some v => exact h v hv

/-- With everything built anew, an operation on a planted set has the answer of the
operation on the compiled set, and asks for what that operation builds. -/
theorem Yields.outcome_ask {id : Nat} (hyields : planted.Yields shelf set)
    (hregistry : planted.registry = .ofSet id) (hsorted : Keyed.Sorted planted.entries)
    (op : Operation) :
    (planted.ask set.describe op).outcome = (op.answer shelf id set, op.builds shelf id set) := by
  cases op with
  | check name slot =>
      rw [ask, Operation.answer, Operation.builds]
      refine hyields.outcome_atEntry hregistry fun v hv => ?_
      rw [Demand.outcome_map, hyields.mirrors.walksAs (hyields.inward hv) rfl,
        Validator.validateSlot, bind_ok_eq_map]
      rfl
  | accepts name slot =>
      rw [ask, Operation.answer, Operation.builds]
      refine hyields.outcome_atEntry hregistry fun v hv => ?_
      have haccepts : (walk shelf [] v.full slot).map List.isEmpty =
          v.full.acceptsSlot shelf slot := by
        rw [Validator.acceptsSlot, Validator.validateSlot]
        cases walk shelf [] v.full slot <;> rfl
      rw [Demand.outcome_map, hyields.mirrors.walksAs (hyields.inward hv) rfl]
      exact Prod.ext (congrArg Answer.verdict haccepts) rfl
  | mayBeAbsent name =>
      rw [ask, Operation.answer, Operation.builds]
      refine hyields.outcome_atEntry hregistry fun v hv => ?_
      rw [Demand.outcome_map, hyields.mirrors.outcome_absenceThrough (hyields.inward hv) rfl]
      rfl
  | schema settings name =>
      rw [ask, Operation.answer, Operation.builds]
      refine hyields.outcome_atEntry hregistry fun v hv => ?_
      rw [Demand.outcome_map, hyields.outcome_schemaThrough v.full (hyields.inward hv) rfl]
      rfl
  | exportWith settings dependencies =>
      rw [ask, Demand.outcome_map, hyields.outcome_exportThrough hsorted, hregistry]
      rfl
  | describe name =>
      rw [ask, Operation.answer, Operation.builds]
      refine hyields.outcome_atEntry hregistry fun v hv => ?_
      rw [Demand.outcome_map, Deferred.outcome_describeThrough v.full rfl]
      rfl
  | descriptions => rfl

end Outcomes
end Planted

/-! ## Planting -/

namespace SchemaSet

variable {settings : CompilerSettings} {registry : Handle} {set : SchemaSet}

/-- Names stay with their elements. -/
theorem sorted_plant (h : Keyed.Sorted set.elements) :
    Keyed.Sorted (set.plant settings registry).entries :=
  Keyed.sorted_mapValues h fun name e => e.plant settings.unknownAttributes name registry

/-- A compiled set is what is planted once everything in it is built. -/
theorem entries_compile : (set.compile settings registry).entries =
    Keyed.mapValues (fun name v => Entry.of name v.full) (set.plant settings registry).entries := by
  rw [compile, CompiledSet.ofValidators, plant, Keyed.mapValues, List.map_map, List.map_map]
  refine List.map_congr_left fun entry _ => ?_
  show _ = (entry.1, Entry.of entry.1 (entry.2.plant _ entry.1 registry).full)
  rw [Element.full_plant]
  rfl

/-- A planted set yields the compiled set that stands on the shelf. -/
theorem yields_plant {shelf : Shelf}
    (h : shelf.set? registry = some (set.compile settings registry)) :
    (set.plant settings registry).Yields shelf (set.compile settings registry) :=
  ⟨.of_compile h, entries_compile⟩

/-- Describing the entries of a planted set asks for nothing. -/
theorem outcome_describeThrough_plant : (set.plant settings registry).describeThrough.outcome =
    ((set.compile settings registry).describe, []) := by
  have hentry : ∀ entry ∈ (set.plant settings registry).entries,
      (entry.2.describeThrough (.ofEntry registry entry.1)).outcome =
        (entry.2.full.describe, []) := by
    intro entry hmem
    obtain ⟨⟨name, e⟩, -, rfl⟩ := List.mem_map.1 hmem
    rw [Deferred.outcome_describeThrough _ rfl, Element.full_plant, Element.builtByDescribe_compile]
  rw [Planted.describeThrough, Demand.outcome_each, CompiledSet.describe, entries_compile,
    Keyed.mapValues, List.map_map]
  refine Prod.ext (List.map_congr_left fun entry hmem => ?_)
    (List.flatMap_eq_nil_iff.2 fun entry hmem => ?_)
  · rw [Demand.outcome_map]
    exact congrArg (Prod.mk entry.1) (congrArg Prod.fst (hentry entry hmem))
  · rw [Demand.outcome_map]
    exact congrArg Prod.snd (hentry entry hmem)

end SchemaSet

/-! ## Live sets -/

/-- A compiled set while it is used. -/
structure LiveSet where
  planted : Planted
  descriptions : List (String × String)
  memory : Memory

namespace LiveSet

/-- The lazy node of a place was forced. -/
def Forced (live : LiveSet) (place : Place) : Prop := place ∈ live.memory.places

/-- Compiles a set of elements and describes its entries. -/
def compile (settings : CompilerSettings) (registry : Handle) (set : SchemaSet) : LiveSet :=
  let planted := set.plant settings registry
  let (descriptions, memory) := planted.describeThrough.run []
  ⟨planted, descriptions, memory⟩

/-- Performs an operation. -/
def perform (live : LiveSet) (op : Operation) : Answer × LiveSet :=
  let (answer, memory) := (live.planted.ask live.descriptions op).run live.memory
  (answer, { live with memory })

/-- Performs operations one after another. -/
def run (live : LiveSet) : List Operation → List Answer × LiveSet
  | [] => ([], live)
  | op :: ops =>
    let (answer, next) := live.perform op
    let (answers, last) := next.run ops
    (answer :: answers, last)

/-- Compiling builds no child. -/
theorem compile_eq {settings : CompilerSettings} {registry : Handle} {set : SchemaSet} :
    compile settings registry set =
      ⟨set.plant settings registry, (set.compile settings registry).describe, []⟩ := by
  rw [compile, Demand.run_eq (show (set.plant settings registry).describeThrough.outcome = _ from
    SchemaSet.outcome_describeThrough_plant)]

/-- In a set that was just compiled nothing is forced. -/
@[simp] theorem not_forced_compile {settings : CompilerSettings} {registry : Handle}
    {set : SchemaSet} {place : Place} : ¬ (compile settings registry set).Forced place := by
  rw [Forced, compile_eq]
  exact List.not_mem_nil

/-! ## Sessions -/

variable {live : LiveSet}

/-- The answer of an operation is what its traversal comes to. -/
theorem answer_perform (op : Operation) :
    (live.perform op).1 = (live.planted.ask live.descriptions op).outcome.1 :=
  Demand.fst_run _ _

/-- An operation that asks for nothing leaves the set as it is. -/
theorem perform_eq_of_outcome {op : Operation}
    (h : (live.planted.ask live.descriptions op).outcome.2 = []) : (live.perform op).2 = live := by
  rw [perform, Demand.run_eq (Prod.ext rfl h)]

/-- After an operation the lazy nodes are forced that were, and those that it asks for. -/
theorem forced_perform {op : Operation} {place : Place} :
    (live.perform op).2.Forced place ↔
      place ∈ (live.planted.ask live.descriptions op).outcome.2 ∨ live.Forced place :=
  Demand.mem_places_run

/-- A session changes nothing but the cells. -/
theorem snd_run (ops : List Operation) :
    (live.run ops).2 = { live with memory := (live.run ops).2.memory } := by
  induction ops generalizing live with
  | nil => rfl
  | cons op ops ih => exact ih

/-- The answers of a session are those of its operations. -/
theorem answers_run (ops : List Operation) :
    (live.run ops).1 = ops.map fun op => (live.perform op).1 := by
  induction ops generalizing live with
  | nil => rfl
  | cons op ops ih =>
      show (live.perform op).1 :: ((live.perform op).2.run ops).1 = _
      rw [ih, List.map_cons]
      refine congrArg _ (List.map_congr_left fun later _ => ?_)
      rw [answer_perform, answer_perform]
      rfl

/-- In a session no cell is emptied. -/
theorem memory_suffix_run (ops : List Operation) : live.memory <:+ (live.run ops).2.memory := by
  induction ops generalizing live with
  | nil => exact List.suffix_rfl
  | cons op ops ih =>
      have hstep : live.memory <:+ (live.perform op).2.memory := Demand.suffix_run _ _
      exact hstep.trans ih

/-- Two sessions in a row are one session. -/
theorem run_append (ops later : List Operation) :
    (live.run (ops ++ later)).2 = ((live.run ops).2.run later).2 := by
  induction ops generalizing live with
  | nil => rfl
  | cons op ops ih => exact ih

/-- After a session the lazy nodes are forced that were, and those that its operations
ask for. -/
theorem forced_run {ops : List Operation} {place : Place} :
    (live.run ops).2.Forced place ↔
      live.Forced place ∨
        ∃ op ∈ ops, place ∈ (live.planted.ask live.descriptions op).outcome.2 := by
  induction ops generalizing live with
  | nil => simp [run]
  | cons op ops ih =>
      show ((live.perform op).2.run ops).2.Forced place ↔ _
      rw [ih, forced_perform, or_assoc, or_left_comm]
      show live.Forced place ∨ _ ∨ (∃ later ∈ ops, place ∈
        (live.planted.ask live.descriptions later).outcome.2) ↔ _
      simp only [List.mem_cons, exists_eq_or_imp]

end LiveSet
end SchemaSets
