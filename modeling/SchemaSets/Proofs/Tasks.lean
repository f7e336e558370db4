import SchemaSets.Command.Basic
import SchemaSets.Proofs.FileTrees

/-!
# Tasks on trees of files

A task asks things of the files, one after another, and goes on with what it gets or
ends where it is refused.  On a tree it comes to a result or a reason, and to a tree
(`onTree`).  What it comes to is put together from what each thing that it asks comes
to.

A task that only asks leaves the tree as it is, and loading settings is one of these
(`leads_load`).
-/

namespace SchemaSets

open FileTree

/-! ## Settings -/

namespace Settings

theorem leads_readText (name : String) : Leads Eq (Files.readText name : StateM FileTree _) :=
  fun _ => rfl

theorem leads_isFile (name : String) : Leads Eq (Files.isFile name : StateM FileTree _) :=
  fun _ => rfl

theorem leads_isDirectory (name : String) :
    Leads Eq (Files.isDirectory name : StateM FileTree _) := fun _ => rfl

theorem leads_readSource (name : String) (isRequired : Bool) :
    Leads Eq (readSource name isRequired : StateM FileTree _) := by
  refine (leads_readText name).bind fun text => ?_
  split
  · exact leads_pure _
  · split <;> exact leads_pure _

theorem leads_source (name : String) (isRequired : Bool) :
    Leads Eq (source name isRequired : StateM FileTree _) := by
  refine (leads_isFile name).bind fun isThere => ?_
  cases isThere with
  | true =>
      rw [if_pos rfl]
      split
      · exact leads_readSource name isRequired
      · exact leads_pure _
  | false =>
      rw [if_neg Bool.false_ne_true]
      cases Files.withSuffix? name fileSuffix with
      | none => exact leads_pure _
      | some suffixed =>
          refine (leads_isFile suffixed).bind fun isThere => ?_
          cases isThere with
          | true => exact leads_readSource suffixed isRequired
          | false => exact leads_pure _

theorem leads_laySources (names : List (String × Bool)) (entries : List (String × Toml)) :
    Leads Eq (laySources names entries : StateM FileTree _) := by
  induction names generalizing entries with
  | nil => exact leads_pure _
  | cons first rest ih =>
      refine (leads_source first.1 first.2).bind fun found => ?_
      cases found with
      | error => exact leads_pure _
      | ok found => exact ih _

theorem leads_sourceNames (surroundings : Surroundings) (asked : Option String) :
    Leads Eq (sourceNames surroundings asked : StateM FileTree _) := by
  rw [sourceNames]
  cases surroundings.userFile with
  | none => exact leads_pure _
  | some name =>
      exact (leads_isFile name).bind fun _ => (leads_isDirectory name).bind fun _ => leads_pure _

/-- Loading settings changes no file. -/
theorem leads_load (surroundings : Surroundings) (asked : Option String) :
    Leads Eq (load surroundings asked : StateM FileTree _) := by
  refine (leads_sourceNames surroundings asked).bind fun names =>
    (leads_laySources names []).bind fun entries => ?_
  split
  · exact leads_pure _
  · split <;> exact leads_pure _

end Settings

namespace Command

section Tasks

variable {α β ε : Type} {tree tree' : FileTree}

/-- What a task comes to on a tree of files. -/
def onTree (x : Task (StateM FileTree) α) (tree : FileTree) : Except String α × FileTree :=
  x.run tree

/-- What something asked of the files comes to as a task. -/
theorem onTree_liftM (x : StateM FileTree α) (tree : FileTree) :
    onTree (liftM x) tree = (.ok (x tree).1, (x tree).2) := rfl

theorem onTree_bind_of_ok {x : Task (StateM FileTree) α} {f : α → Task (StateM FileTree) β} {a : α}
    (h : onTree x tree = (.ok a, tree')) : onTree (x >>= f) tree = onTree (f a) tree' := by
  rw [onTree] at h
  rw [onTree, ExceptT.run_bind, bind_apply, h]
  rfl

theorem onTree_bind_of_error {x : Task (StateM FileTree) α} {f : α → Task (StateM FileTree) β}
    {reason : String} (h : onTree x tree = (.error reason, tree')) :
    onTree (x >>= f) tree = (.error reason, tree') := by
  rw [onTree] at h
  rw [onTree, ExceptT.run_bind, bind_apply, h]
  rfl

/-- Something asked of the files gives its result, or words for why it is refused. -/
theorem onTree_orFail (words : ε → String) {x : StateM FileTree (Except ε α)}
    {result : Except ε α} (h : x tree = (result, tree')) :
    onTree (liftM x >>= orFail words) tree = (result.mapError words, tree') := by
  have hasked : onTree (liftM x) tree = (.ok result, tree') := by rw [onTree_liftM, h]
  rw [onTree_bind_of_ok hasked]
  cases result <;> rfl

/-- A task goes on with what it asked of the files. -/
theorem onTree_ask_ok (words : ε → String) {x : StateM FileTree (Except ε α)} {a : α}
    (h : x tree = (.ok a, tree')) (f : α → Task (StateM FileTree) β) :
    onTree (liftM x >>= fun result => orFail words result >>= f) tree = onTree (f a) tree' := by
  rw [← bind_assoc, onTree_bind_of_ok (onTree_orFail words h)]

/-- A task ends where the files refuse. -/
theorem onTree_ask_error (words : ε → String) {x : StateM FileTree (Except ε α)} {e : ε}
    (h : x tree = (.error e, tree')) (f : α → Task (StateM FileTree) β) :
    onTree (liftM x >>= fun result => orFail words result >>= f) tree =
      (.error (words e), tree') := by
  rw [← bind_assoc, onTree_bind_of_error (onTree_orFail words h)]

end Tasks

end Command

end SchemaSets
