import Mathlib.Data.List.Permutation
import SchemaSets.Proofs.Required

/-!
# Reports of parts

A report on an array is made of reports on its items, and likewise for records and objects
(`Joins`): each part is checked as if it stood alone, and what is found there is seen from the
value around it.  If some part has no report but an error, the first such error is the
outcome.

A walk need not carry anything for this but the chain.  A walk that does carry more, with one
path that grows and shrinks and one list for all issues, is `note`.  It leaves the path and the
chain as it found them, at every kind of node, and adds to the list just what the walk
finds (`note_eq`).  So it cannot matter what the path and the list were before.

## Main results

* `note_eq` — walking with notes.
* `reports_compose` — reports on arrays, records and objects.
-/

namespace SchemaSets

/-- An issue seen from where a path begins, the issue being seen from where the path ends. -/
def Issue.behind (path : Path) (issue : Issue) : Issue := { issue with path := path ++ issue.path }

/-! ## Notes -/

/-- What a walk has written down: the path to where it is, the issues so far and the chain. -/
structure Notes where
  path : Path
  issues : List Issue
  chain : List String

namespace Notes

/-- Notes of a walk that is back where it was: only the issues may have changed. -/
def After (notes : Notes) : Type :=
  { after : Notes // after.path = notes.path ∧ after.chain = notes.chain }

section Steps

variable (notes : Notes)

/-- Nothing is written down. -/
def same : notes.After := ⟨notes, rfl, rfl⟩

/-- Issues are written down with the path to where the walk is. -/
def add (found : List Issue) : notes.After :=
  ⟨{ notes with issues := notes.issues ++ found.map (Issue.behind notes.path) }, rfl, rfl⟩

/-- The walk goes down a step, where a new chain begins. -/
def enter (segment : Segment) : Notes := ⟨notes.path ++ [segment], notes.issues, []⟩

/-- The walk is back from below, and takes the step back. -/
def leave {segment : Segment} (inside : (notes.enter segment).After) : notes.After :=
  ⟨⟨inside.1.path.dropLast, inside.1.issues, notes.chain⟩, by simp [inside.2.1, enter], rfl⟩

/-- The walk follows a name. -/
def follow (target : String) : Notes := { notes with chain := target :: notes.chain }

/-- The walk is back from the entry of a name, and takes the name back. -/
def unfollow {target : String} (inside : (notes.follow target).After) : notes.After :=
  ⟨{ inside.1 with chain := inside.1.chain.tail }, inside.2.1, by simp [inside.2.2, follow]⟩

/-- The walk tries a branch, whose issues are written down apart. -/
def attempt : Notes := { notes with issues := [] }

/-- The walk is back from a branch, and throws the issues of the branch away. -/
def discard (inside : notes.attempt.After) : notes.After :=
  ⟨{ inside.1 with issues := notes.issues }, inside.2.1, inside.2.2⟩

end Steps

variable {notes : Notes}

/-- What is written down after what was written down before. -/
def After.next (after : notes.After) (later : after.1.After) : notes.After :=
  ⟨later.1, later.2.1.trans after.2.1, later.2.2.trans after.2.2⟩

theorem add_nil : notes.add [] = notes.same :=
  Subtype.ext (by simp [add, same])

/-- Issues that are written down one after the other are written down in that order. -/
theorem next_add {after : notes.After} {found more : List Issue} (h : after = notes.add found) :
    after.next (after.1.add more) = notes.add (found ++ more) := by
  subst h
  exact Subtype.ext (by simp [After.next, add])

/-- Issues that were written down below lie behind the step. -/
theorem leave_add (segment : Segment) (found : List Issue) :
    notes.leave ((notes.enter segment).add found) =
      notes.add (found.map (Issue.under segment)) := by
  have hpath : ∀ issue : Issue, issue.behind (notes.path ++ [segment]) =
      (issue.under segment).behind notes.path := by
    simp [Issue.behind, Issue.under]
  exact Subtype.ext (by simp [leave, add, enter, Function.comp_def, hpath])

theorem unfollow_add (target : String) (found : List Issue) :
    notes.unfollow ((notes.follow target).add found) = notes.add found := rfl

theorem discard_add (found : List Issue) :
    notes.discard (notes.attempt.add found) = notes.same := rfl

end Notes

/-! ## Walking with notes -/

mutual
/-- The notes after a slot was walked. -/
def note (shelf : Shelf) (v : Validator) (slot : Slot) (notes : Notes) :
    Except ReferenceError notes.After :=
  match v with
  | .optional inner =>
    match slot with
    | none => .ok notes.same
    | some x => note shelf inner (some x) notes
  | .lazy _ child => note shelf child slot notes
  | .reference target owner registry =>
    if _hnew : target ∈ notes.chain then
      .ok (notes.add [⟨[], .reference target, .referenceCycle⟩])
    else
      match _h : shelf.resolve registry target owner with
      | .error cause => .error cause
      | .ok entry => do
        let inside ← note shelf entry.validator slot (notes.follow target)
        .ok (notes.unfollow inside)
  | .union branches => noteBranches shelf branches.length branches slot notes
  | v =>
    match v.asks? with
    | none => .ok notes.same
    | some expected =>
      if v.admits slot then do
        let after ← noteParts shelf slot.size (v.parts slot)
          (fun _ => Validator.size_lt_of_mem_parts) notes
        .ok (after.next (after.1.add (v.strays slot)))
      else .ok (notes.add [Issue.here expected slot])
termination_by (slot.size, shelf.fresh notes.chain + 1, 2 * v.size)
decreasing_by
  · exact Prod.Lex.right _ (Prod.Lex.right _ (by simp only [Validator.size]; omega))
  · exact Prod.Lex.right _ (Prod.Lex.right _ (by simp only [Validator.size]; omega))
  · exact Prod.Lex.right _ (Prod.Lex.left _ _ (Nat.succ_lt_succ
      (Shelf.fresh_cons_lt (Shelf.mem_names_of_resolve _h) _hnew)))
  · exact Prod.Lex.right _ (Prod.Lex.right _ (by simp only [Validator.size]; omega))
  · exact Prod.Lex.right _ (Prod.Lex.left _ _ (Nat.succ_pos _))
/-- The notes after the branches of a union were tried, one after the other. -/
def noteBranches (shelf : Shelf) (count : Nat) (branches : List Validator) (slot : Slot)
    (notes : Notes) : Except ReferenceError notes.After :=
  match branches with
  | [] => .ok (notes.add [Issue.here (.oneBranchOf count) slot])
  | branch :: rest => do
    let inside ← note shelf branch slot notes.attempt
    let back := notes.discard inside
    if inside.1.issues.isEmpty then .ok back
    else
      let later ← noteBranches shelf count rest slot back.1
      .ok (back.next later)
termination_by (slot.size, shelf.fresh notes.chain + 1, 2 * Validator.sizeList branches + 1)
decreasing_by
  · exact Prod.Lex.right _ (Prod.Lex.right _ (by simp only [Validator.sizeList]; omega))
  · have hchain : back.1.chain = notes.chain := back.2.2
    rw [hchain]
    exact Prod.Lex.right _ (Prod.Lex.right _ (by
      have := branch.size_pos
      simp only [Validator.sizeList]
      omega))
/-- The notes after the parts of a value were walked, one after the other. -/
def noteParts (shelf : Shelf) (size : Nat) (parts : List Part)
    (hsize : ∀ part ∈ parts, part.slot.size < size) (notes : Notes) :
    Except ReferenceError notes.After :=
  match parts with
  | [] => .ok notes.same
  | part :: rest => do
    let inside ← note shelf part.validator part.slot (notes.enter part.segment)
    let back := notes.leave inside
    let later ← noteParts shelf size rest
      (fun other h => hsize other (List.mem_cons_of_mem _ h)) back.1
    .ok (back.next later)
termination_by (size, 0, parts.length)
decreasing_by
  · exact Prod.Lex.left _ _ (hsize part List.mem_cons_self)
  · exact Prod.Lex.right _ (Prod.Lex.right _ (Nat.lt_succ_self _))
end

section Independence

variable {shelf : Shelf}

/-- Branches that are walked alike are tried alike; what is written down on the way is thrown
away. -/
theorem noteBranches_eq {chain : List String} {slot : Slot} {branches : List Validator}
    (h : ∀ branch ∈ branches, ∀ notes : Notes, notes.chain = chain →
      note shelf branch slot notes = (walk shelf chain branch slot).map notes.add)
    (count : Nat) (notes : Notes) (hchain : notes.chain = chain) :
    noteBranches shelf count branches slot notes =
      (walkBranches shelf chain branches slot).map fun fits =>
        notes.add (checked fits (.oneBranchOf count) slot) := by
  induction branches generalizing notes with
  | nil => rw [noteBranches, walkBranches]; rfl
  | cons branch rest ih =>
      have hrest := ih fun other hother => h other (List.mem_cons_of_mem _ hother)
      rw [noteBranches, walkBranches, h branch List.mem_cons_self notes.attempt hchain]
      cases walk shelf chain branch slot with
      | error cause => rfl
      | ok found =>
          cases found with
          | nil => exact congrArg Except.ok ((notes.discard_add []).trans Notes.add_nil.symm)
          | cons issue more =>
              -- the issues of the branch are gone, and the notes are as they were
              change (noteBranches shelf count rest slot notes.same.1 >>= fun later =>
                Except.ok (notes.same.next later)) = (walkBranches shelf chain rest slot).map _
              rw [bind_ok_eq_map, hrest notes.same.1 hchain, map_map_eq]
              exact congrArg (Except.map · _) (funext fun fits =>
                Notes.next_add Notes.add_nil.symm)

/-- Parts that are walked alike are gone through alike. -/
theorem noteParts_eq {size : Nat} {parts : List Part}
    (h : ∀ part ∈ parts, ∀ notes : Notes, notes.chain = [] →
      note shelf part.validator part.slot notes =
        (walk shelf [] part.validator part.slot).map notes.add)
    (hsize : ∀ part ∈ parts, part.slot.size < size) (notes : Notes) :
    noteParts shelf size parts hsize notes = (walkParts shelf parts).map notes.add := by
  induction parts generalizing notes with
  | nil => rw [noteParts, walkParts, ← Notes.add_nil]; rfl
  | cons part rest ih =>
      have hrest := ih fun other hother => h other (List.mem_cons_of_mem _ hother)
      rw [noteParts, walkParts, h part List.mem_cons_self (notes.enter part.segment) rfl]
      cases walk shelf [] part.validator part.slot with
      | error cause => rfl
      | ok found =>
          change (noteParts shelf size rest _ (notes.leave _).1 >>= fun later =>
            Except.ok ((notes.leave _).next later)) =
              (walkParts shelf rest >>= fun more => Except.ok (_ ++ more)).map notes.add
          rw [bind_ok_eq_map, bind_ok_eq_map, hrest, map_map_eq, map_map_eq]
          exact congrArg (Except.map · _) (funext fun more =>
            Notes.next_add (Notes.leave_add part.segment found))

/-- A walk writes down its issues, with the path to where they were found, after those that were
written down before.  It comes back with the path and the chain that it was given, and of what
it was given only the chain decides what it finds. -/
theorem note_eq (chain : List String) (v : Validator) (slot : Slot) (notes : Notes)
    (hchain : notes.chain = chain) :
    note shelf v slot notes = (walk shelf chain v slot).map notes.add := by
  induction chain, v, slot using walk_descent shelf generalizing notes with
  | any chain slot =>
      rw [note, walk_any, Validator.asks?, ← Notes.add_nil]
      · rfl
      all_goals simp
  | asks chain v slot expected hasks ih =>
      have hnote : note shelf v slot notes =
          if v.admits slot then do
            let after ← noteParts shelf slot.size (v.parts slot)
              (fun _ => Validator.size_lt_of_mem_parts) notes
            .ok (after.next (after.1.add (v.strays slot)))
          else .ok (notes.add [Issue.here expected slot]) := by
        cases v with
        | any | union | lazy | reference | optional => cases hasks
        | _ => cases hasks; rw [note]; rfl; all_goals simp
      rw [hnote, walk_of_asks hasks]
      by_cases hadmits : v.admits slot = true
      · rw [if_pos hadmits, if_pos hadmits, bind_ok_eq_map, noteParts_eq ih, map_map_eq, map_map_eq]
        exact congrArg (Except.map · _) (funext fun found => Notes.next_add rfl)
      · rw [if_neg hadmits, if_neg hadmits]
        rfl
  | union chain branches slot ih =>
      rw [note, noteBranches_eq ih _ notes hchain, walk, bind_ok_eq_map, map_map_eq]
  | lazy chain label child slot ih =>
      rw [note, walk]
      exact ih notes hchain
  | cycle chain target owner registry slot h =>
      rw [note, walk_cycle h, dif_pos (hchain ▸ h)]
      rfl
  | broken chain target owner registry slot cause hnew h =>
      rw [note, walk_broken hnew h, dif_neg (hchain ▸ hnew)]
      split <;> simp_all [Except.map]
  | follow chain target owner registry slot entry hnew h ih =>
      rw [note, walk_follow hnew h, dif_neg (hchain ▸ hnew)]
      split
      · simp_all
      · next found hfound =>
          obtain rfl : entry = found := by simp_all
          rw [bind_ok_eq_map, ih (notes.follow target) (congrArg _ hchain), map_map_eq]
          exact congrArg (Except.map · _) (funext (notes.unfollow_add target))
  | absent chain inner =>
      rw [note, walk, ← Notes.add_nil]
      rfl
  | present chain inner x ih =>
      rw [note, walk]
      exact ih notes hchain

/-- A node that asks for something looks at no chain. -/
theorem walk_eq_of_asks {v : Validator} {expected : Expectation} (hasks : v.asks? = some expected)
    (chain : List String) (slot : Slot) : walk shelf chain v slot = walk shelf [] v slot := by
  rw [walk_of_asks hasks, walk_of_asks hasks]

end Independence

/-! ## Joined reports -/

/-- The outcomes of parts put together: if all are reports, the issues of all of them in order,
each seen from around its part, and then some more; else the first error. -/
structure Joins (parts : List (Segment × Except ReferenceError Report)) (more : List Issue)
    (whole : Except ReferenceError Report) : Prop where
  reports : ∀ reports, List.Forall₂ (fun part report => part.2 = .ok report) parts reports →
    whole = .ok ⟨((parts.zip reports).flatMap fun joined =>
      joined.2.issues.map (Issue.under joined.1.1)) ++ more⟩
  fails : ∀ before segment cause after, parts = before ++ (segment, .error cause) :: after →
    (∀ part ∈ before, ∃ report, part.2 = .ok report) → whole = .error cause

section Joined

variable {shelf : Shelf}

/-- The outcome of a part, checked alone. -/
def Part.outcome (shelf : Shelf) (part : Part) : Segment × Except ReferenceError Report :=
  (part.segment, part.validator.validateSlot shelf part.slot)

/-- Where every part has a report, the issues of the parts are those of the reports. -/
theorem walkParts_of_reports {parts : List Part} {reports : List Report}
    (h : List.Forall₂ (fun part report => part.2 = .ok report)
      (parts.map (Part.outcome shelf)) reports) :
    walkParts shelf parts =
      .ok (((parts.map (Part.outcome shelf)).zip reports).flatMap fun joined =>
        joined.2.issues.map (Issue.under joined.1.1)) := by
  induction parts generalizing reports with
  | nil =>
      cases h
      rfl
  | cons part rest ih =>
      rw [List.map_cons] at h
      cases h with
      | @cons _ report _ reports hfirst hrest =>
          rw [walkParts, validateSlot_eq_ok_iff.1 hfirst, ih hrest]
          rfl

/-- The first part that has no report decides. -/
theorem walkParts_of_error {parts : List Part}
    {before after : List (Segment × Except ReferenceError Report)} {segment : Segment}
    {cause : ReferenceError}
    (h : parts.map (Part.outcome shelf) = before ++ (segment, .error cause) :: after)
    (hbefore : ∀ part ∈ before, ∃ report, part.2 = .ok report) :
    walkParts shelf parts = .error cause := by
  induction parts generalizing before with
  | nil => simp at h
  | cons part rest ih =>
      rw [List.map_cons] at h
      cases before with
      | nil =>
          have hfirst : part.validator.validateSlot shelf part.slot = .error cause :=
            congrArg Prod.snd (List.cons.inj h).1
          have hwalk : walk shelf [] part.validator part.slot = .error cause := by
            rw [Validator.validateSlot, bind_eq_error_iff] at hfirst
            simpa using hfirst
          rw [walkParts, hwalk]
          rfl
      | cons first before =>
          obtain ⟨rfl, hrest⟩ := List.cons.inj h
          obtain ⟨⟨report, hreport⟩, hothers⟩ := List.forall_mem_cons.1 hbefore
          rw [walkParts, validateSlot_eq_ok_iff.1 hreport, ih hrest hothers]
          rfl

/-- Where a node finds what it asks for, its report is made of those of its parts. -/
theorem joins_parts {v : Validator} {slot : Slot} {expected : Expectation}
    (hasks : v.asks? = some expected) (hadmits : v.admits slot = true) :
    Joins ((v.parts slot).map (Part.outcome shelf)) (v.strays slot)
      (v.validateSlot shelf slot) := by
  have hwhole : v.validateSlot shelf slot =
      (walkParts shelf (v.parts slot)).map fun found => ⟨found ++ v.strays slot⟩ := by
    rw [Validator.validateSlot, walk_of_asks hasks, if_pos hadmits, bind_ok_eq_map, map_map_eq]
  constructor
  · intro reports hreports
    rw [hwhole, walkParts_of_reports hreports]
    rfl
  · intro before segment cause after h hbefore
    rw [hwhole, walkParts_of_error h hbefore]
    rfl

end Joined

/-- Reports compose.  A report on an array is made of the reports on its items in their order, one
on a record of the reports on its values in the order of the members, and one on an object of the
reports on the attributes of its fields, present or not, in the order of the fields, followed by an
issue for every member that a closed object does not list.  The fields of a compiled object stand
in code-point order.  A walk that carries the path, the issues and the chain along adds what it
finds and changes nothing else; and where it comes to an array, a record or an object, what it
adds is what a report on that slot alone has. -/
theorem reports_compose (shelf : Shelf) {set : SchemaSet} (hset : set.Ordered)
    (settings : CompilerSettings) (registry : Handle) :
    (∀ item items, Joins
      (items.zipIdx.map fun numbered => (.index numbered.2, item.validate shelf numbered.1)) []
      ((Validator.array item).validate shelf (.array items))) ∧
    (∀ value members, Joins
      (members.map fun member => (.key member.1, value.validate shelf member.2)) []
      ((Validator.record value).validate shelf (.object members))) ∧
    (∀ fields closed members, Joins
      (fields.map fun field =>
        (.field field.1, field.2.validateSlot shelf (Keyed.find? field.1 members)))
      (if closed then unlisted fields members else [])
      ((Validator.object fields closed).validate shelf (.object members))) ∧
    (∀ fields closed, (set.compile settings registry).HasNode (.object fields closed) →
      Keyed.Sorted fields) ∧
    (∀ v slot notes, note shelf v slot notes = (walk shelf notes.chain v slot).map notes.add) ∧
    ∀ v slot notes expected, v.asks? = some expected →
      note shelf v slot notes =
        (v.validateSlot shelf slot).map fun report => notes.add report.issues := by
  refine ⟨fun item items => ?_, fun value members => ?_, fun fields closed members => ?_,
    fun fields closed hnode => hset.sorted_of_hasNode hnode,
    fun v slot notes => note_eq notes.chain v slot notes rfl,
    fun v slot notes expected hasks => ?_⟩
  · have hjoins := @joins_parts shelf (.array item) (some (.array items)) _ rfl rfl
    rwa [Validator.parts, List.map_map] at hjoins
  · have hjoins := @joins_parts shelf (.record value) (some (.object members)) _ rfl rfl
    rwa [Validator.parts, List.map_map] at hjoins
  · have hjoins := @joins_parts shelf (.object fields closed) (some (.object members)) _ rfl rfl
    rw [Validator.parts, List.map_map] at hjoins
    cases closed <;> exact hjoins
  · rw [note_eq notes.chain v slot notes rfl, walk_eq_of_asks hasks, Validator.validateSlot,
      bind_ok_eq_map, map_map_eq]

/-- Tables with guests, who are called by their names, and perhaps with a host, of whom nothing is
known. -/
def banquet : SchemaSet :=
  .ofList [("guest", .union [.reference "guest" false, .simple .string false] false),
    ("table", .object [("guests", .array (.reference "guest" false) false),
      ("host", .reference "host" true)] false)]

def banquetShelf : Shelf := ({} : Shelf).put 0 (banquet.compile ⟨.reject⟩ (.ofSet 0))

/-- The checks of a guest and of a host, as they stand in the compiled table. -/
def guestCheck : Validator := .reference "guest" "table" (.ofSet 0)

def hostCheck : Validator := .optional (.reference "host" "table" (.ofSet 0))

/-- What is found where a guest has no name. -/
def nameless : Issue := .here (.oneBranchOf 2) (some .null)

/-- One guest has no name and there is a lamp on the table: two issues, at the guest and at the
lamp.  With a host at the table there is no report. -/
theorem reports_compose_banquet :
    let table := Validator.object [("guests", .array guestCheck), ("host", hostCheck)] true
    let guests := Value.array [.string "ann", .null]
    banquet.Ordered ∧
    (Validator.array guestCheck).validate banquetShelf guests =
      .ok ⟨[nameless.under (.index 1)]⟩ ∧
    table.validate banquetShelf (.object [("guests", guests), ("lamp", .null)]) =
      .ok ⟨[(nameless.under (.index 1)).under (.field "guests"),
        ⟨[.field "lamp"], .noSuchAttribute, .unexpectedAttribute⟩]⟩ ∧
    table.validate banquetShelf (.object [("guests", guests), ("host", .null)]) =
      .error (.unresolved "host" "table" ["guest", "table"]) := by
  have hordered : banquet.Ordered := by decide
  have hann : guestCheck.validate banquetShelf (.string "ann") = .ok ⟨[]⟩ := by cbv
  have hnull : guestCheck.validate banquetShelf .null = .ok ⟨[nameless]⟩ := by cbv
  have habsent : hostCheck.validateSlot banquetShelf none = .ok ⟨[]⟩ := by cbv
  have hhost : hostCheck.validateSlot banquetShelf (some .null) =
      .error (.unresolved "host" "table" ["guest", "table"]) := by cbv
  intro table guests
  obtain ⟨harray, -, hobject, -⟩ := reports_compose banquetShelf hordered ⟨.reject⟩ (.ofSet 0)
  have hguests : (Validator.array guestCheck).validate banquetShelf guests =
      .ok ⟨[nameless.under (.index 1)]⟩ :=
    (harray guestCheck _).reports [⟨[]⟩, ⟨[nameless]⟩] (.cons hann (.cons hnull .nil))
  refine ⟨hordered, hguests, ?_, ?_⟩
  · exact (hobject _ true _).reports [⟨[nameless.under (.index 1)]⟩, ⟨[]⟩]
      (.cons hguests (.cons habsent .nil))
  · have hparts := congrArg₂ (fun guests host =>
      [(Segment.field "guests", guests), (Segment.field "host", host)]) hguests hhost
    exact (hobject _ true _).fails [(_, .ok _)] _ _ [] hparts
      (List.forall_mem_singleton.2 ⟨_, rfl⟩)

end SchemaSets
