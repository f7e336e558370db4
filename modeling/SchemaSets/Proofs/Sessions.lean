import SchemaSets.Proofs.Compiled
import SchemaSets.Workspace

/-!
# Sessions

In a session a compiled set is asked one thing after another.  Each operation names
an entry, or is about the set as a whole; it gives an answer, and the workspace
remembers which lazy nodes were built on the way.

What an operation does to a workspace is in two parts.  Its answer is told from the
shelf (`answer`), and so are the places that it builds (`builds`); the workspace
before it only has these places added (`perform_eq`).  So the places of a session
are those of its operations (`mem_built_run`).
-/

namespace SchemaSets

/-- What a compiled set can be asked. -/
inductive Operation
  | check (name : String) (slot : Slot)
  | accepts (name : String) (slot : Slot)
  | mayBeAbsent (name : String)
  | schema (settings : ExportSettings) (name : String)
  | exportWith (settings : ExportSettings) (dependencies : List (String × List String))
  | describe (name : String)
  | descriptions

/-- What an operation gives. -/
inductive Answer
  | unknownEntry (name : String)
  | report (outcome : Except ReferenceError Report)
  | verdict (outcome : Except ReferenceError Bool)
  | absence (may : Bool)
  | schema (document : Json)
  | documents (exported : ExportedSet)
  | description (text : String)
  | descriptions (texts : List (String × String))

namespace Workspace

/-- Asks for an entry of a set, if there is one of that name. -/
def atEntry (w : Workspace) (id : Nat) (set : CompiledSet) (name : String)
    (ask : Located → Answer × Workspace) : Answer × Workspace :=
  match set.located? (.ofSet id) name with
  | some node => ask node
  | none => (.unknownEntry name, w)

/-- Performs an operation on the set of a number. -/
def perform (w : Workspace) (id : Nat) (set : CompiledSet) : Operation → Answer × Workspace
  | .check name slot => w.atEntry id set name fun node =>
    let (outcome, next) := w.check node slot
    (.report outcome, next)
  | .accepts name slot => w.atEntry id set name fun node =>
    let (outcome, next) := w.check node slot
    (.verdict (outcome.map Report.isValid), next)
  | .mayBeAbsent name => w.atEntry id set name fun node =>
    let (may, next) := w.mayBeAbsent node
    (.absence may, next)
  | .schema settings name => w.atEntry id set name fun node =>
    let (document, next) := w.schema settings node
    (.schema document, next)
  | .exportWith settings dependencies =>
    let (exported, next) := w.exportWith settings dependencies id set
    (.documents exported, next)
  | .describe name => w.atEntry id set name fun node =>
    let (text, next) := w.describe node
    (.description text, next)
  | .descriptions => (.descriptions set.describe, w)

/-- Performs operations one after another. -/
def run (w : Workspace) (id : Nat) (set : CompiledSet) :
    List Operation → List Answer × Workspace
  | [] => ([], w)
  | op :: ops =>
    let (answer, next) := w.perform id set op
    let (answers, last) := next.run id set ops
    (answer :: answers, last)

end Workspace

/-! ## Answers and places -/

namespace Operation

/-- What an operation on the set of a number gives. -/
def answer (shelf : Shelf) (id : Nat) (set : CompiledSet) : Operation → Answer
  | .check name slot => atEntry name fun node =>
    .report (node.validator.validateSlot shelf slot)
  | .accepts name slot => atEntry name fun node =>
    .verdict (node.validator.acceptsSlot shelf slot)
  | .mayBeAbsent name => atEntry name fun node => .absence (node.validator.mayBeAbsent shelf)
  | .schema settings name => atEntry name fun node =>
    .schema (node.validator.schema shelf settings)
  | .exportWith settings dependencies => .documents (set.exportWith shelf settings dependencies)
  | .describe name => atEntry name fun node => .description node.validator.describe
  | .descriptions => .descriptions set.describe
where
  /-- What is given of an entry, if there is one. -/
  atEntry (name : String) (give : Located → Answer) : Answer :=
    (set.located? (.ofSet id) name).elim (.unknownEntry name) give

/-- The lazy nodes that an operation on the set of a number comes to. -/
def builds (shelf : Shelf) (id : Nat) (set : CompiledSet) : Operation → List Place
  | .check name slot | .accepts name slot => atEntry name fun node =>
    builtByWalk shelf [] node.place node.validator slot
  | .mayBeAbsent name => atEntry name fun node => node.builtByAbsence shelf
  | .schema _ name => atEntry name fun node => node.builtBySchema shelf
  | .exportWith _ dependencies => set.builtByExport shelf (.ofSet id) dependencies
  | .describe name => atEntry name fun node => node.validator.builtByDescribe node.place
  | .descriptions => []
where
  /-- The places that are built for an entry, if there is one. -/
  atEntry (name : String) (places : Located → List Place) : List Place :=
    (set.located? (.ofSet id) name).elim [] places

/-- What is built for an entry is built for one that there is. -/
theorem exists_of_mem_atEntry {id : Nat} {set : CompiledSet} {name : String}
    {places : Located → List Place} {place : Place} (h : place ∈ builds.atEntry id set name places) :
    ∃ node, set.located? (.ofSet id) name = some node ∧ place ∈ places node := by
  rw [builds.atEntry] at h
  cases hnode : set.located? (.ofSet id) name with
  | none =>
      rw [hnode] at h
      cases h
  | some node =>
      rw [hnode] at h
      exact ⟨node, rfl, h⟩

end Operation

namespace Workspace

variable {w : Workspace} {id : Nat} {set : CompiledSet}

/-- A place is built once it is among those that are marked. -/
@[simp] theorem mem_built_mark {places : List Place} {place : Place} :
    place ∈ (w.mark places).built ↔ place ∈ places ∨ place ∈ w.built := by
  by_cases h : place ∈ w.built <;> simp [mark, h]

/-- An operation gives its answer and adds its places. -/
theorem perform_eq (op : Operation) :
    w.perform id set op = (op.answer w.shelf id set, w.mark (op.builds w.shelf id set)) := by
  have hentry : ∀ name (ask : Located → Answer × Workspace) (give : Located → Answer)
      (places : Located → List Place), (∀ node, ask node = (give node, w.mark (places node))) →
      w.atEntry id set name ask = (Operation.answer.atEntry id set name give,
        w.mark (Operation.builds.atEntry id set name places)) := by
    intro name ask give places hask
    rw [atEntry, Operation.answer.atEntry, Operation.builds.atEntry]
    cases set.located? (.ofSet id) name with
    | none => rfl
    | some node => exact hask node
  cases op with
  | check name slot => exact hentry name _ _ _ fun node => rfl
  | accepts name slot =>
      refine hentry name _ _ _ fun node => ?_
      rw [Validator.acceptsSlot, bind_ok_eq_map]
      rfl
  | mayBeAbsent name => exact hentry name _ _ _ fun node => rfl
  | schema settings name => exact hentry name _ _ _ fun node => rfl
  | exportWith settings dependencies => rfl
  | describe name => exact hentry name _ _ _ fun node => rfl
  | descriptions => rfl

/-- No operation changes the shelf. -/
theorem shelf_perform (op : Operation) : (w.perform id set op).2.shelf = w.shelf := by
  rw [perform_eq]
  rfl

/-- No session changes the shelf. -/
theorem shelf_run (ops : List Operation) : (w.run id set ops).2.shelf = w.shelf := by
  induction ops generalizing w with
  | nil => rfl
  | cons op ops ih =>
      show ((w.perform id set op).2.run id set ops).2.shelf = _
      rw [ih, shelf_perform]

/-- The answers of a session are those of its operations, whatever was built before. -/
theorem answers_run (ops : List Operation) :
    (w.run id set ops).1 = ops.map fun op => op.answer w.shelf id set := by
  induction ops generalizing w with
  | nil => rfl
  | cons op ops ih =>
      show (w.perform id set op).1 :: ((w.perform id set op).2.run id set ops).1 = _
      rw [ih, shelf_perform, perform_eq, List.map_cons]

/-- A session builds what its operations come to. -/
theorem mem_built_run {ops : List Operation} {place : Place} :
    place ∈ (w.run id set ops).2.built ↔
      place ∈ w.built ∨ ∃ op ∈ ops, place ∈ op.builds w.shelf id set := by
  induction ops generalizing w with
  | nil => simp [run]
  | cons op ops ih =>
      show place ∈ ((w.perform id set op).2.run id set ops).2.built ↔ _
      rw [ih, shelf_perform, perform_eq, mem_built_mark, or_assoc, or_left_comm]
      simp only [List.mem_cons, exists_eq_or_imp]

end Workspace

/-! ## Describing compiled elements -/

namespace Element

variable {policy : UnknownAttributes} {owner : String} {registry : Handle}

open Validator

/-- A mark is described without building anything. -/
@[simp] private theorem builtByDescribe_wrap (o : Bool) (v : Validator) (place : Place) :
    (wrap o v).builtByDescribe place = v.builtByDescribe (if o then place.child 0 else place) := by
  cases o <;> rfl

mutual
/-- To describe a compiled element builds nothing, since its lazy nodes have labels. -/
theorem builtByDescribe_compile (e : Element) (place : Place) :
    (e.compile policy owner registry).builtByDescribe place = [] := by
  cases e with
  | simple kind o => cases kind <;> simp [compile, compileSimple, builtByDescribe]
  | enumeration values o =>
      by_cases hfew : values.length < 2 <;> simp [compile, hfew, builtByDescribe]
  | object attributes o =>
      simp [compile, builtByDescribe, builtByDescribeFields_compile attributes]
  | array item o => simp [compile, builtByDescribe, builtByDescribe_compile item]
  | record value o => simp [compile, builtByDescribe, builtByDescribe_compile value]
  | union branches o => simp [compile, builtByDescribe, builtByDescribeList_compile branches]
  | function args returns o =>
      cases returns with
      | none => simp [compile, builtByDescribe, builtByDescribeList_compile args]
      | some r =>
          simp [compile, builtByDescribe, builtByDescribeList_compile args,
            builtByDescribe_compile r]
  | _ => simp [compile, builtByDescribe]
/-- To describe a list of compiled elements builds nothing. -/
theorem builtByDescribeList_compile (es : List Element) (place : Place) (position : Nat) :
    builtByDescribeList place position (compileList policy owner registry es) = [] := by
  cases es with
  | nil => rfl
  | cons e es =>
      rw [compileList, builtByDescribeList, builtByDescribe_compile e,
        builtByDescribeList_compile es]
      rfl
/-- To describe compiled attributes builds nothing. -/
theorem builtByDescribeFields_compile (attributes : List (String × Element)) (place : Place)
    (position : Nat) :
    builtByDescribeFields place position (compileAttributes policy owner registry attributes) =
      [] := by
  cases attributes with
  | nil => rfl
  | cons a rest =>
      obtain ⟨name, e⟩ := a
      rw [compileAttributes, builtByDescribeFields, builtByDescribe_compile e,
        builtByDescribeFields_compile rest]
      rfl
end

end Element

/-- To describe an entry of a compiled set builds nothing. -/
theorem Operation.builds_describe {shelf : Shelf} {id : Nat} {settings : CompilerSettings}
    {set : SchemaSet} (name : String) :
    (Operation.describe name).builds shelf id (set.compile settings (.ofSet id)) = [] := by
  rw [builds, builds.atEntry, CompiledSet.located?, SchemaSet.get?_compile]
  cases set.get? name with
  | none => rfl
  | some e => exact e.builtByDescribe_compile _

end SchemaSets
