import SchemaSets.Lazy.Place
import SchemaSets.Proofs.Deferred.Demand
import SchemaSets.Validator.Description

/-!
# Descriptions that ask for children

A description is written of every node, those in function signatures included.  Its
writer asks for the child of a lazy node only where there is no label.

With everything built anew the description comes out as that of the validator
(`outcome_describeThrough`).
-/

namespace SchemaSets

namespace Deferred

mutual
/-- Writes the description of a validator at a place. -/
def describeThrough (place : Place) (v : Deferred) : Demand String :=
  match v with
  | .object fields closed => (describeFieldsThrough place 0 fields).map (Description.object closed)
  | .array item => (describeThrough (place.child 0) item).map Description.array
  | .record value => (describeThrough (place.child 0) value).map Description.record
  | .union branches => (describeListThrough place 0 branches).map Description.union
  | .function args none =>
    (describeListThrough place 0 args).map fun texts => Description.function texts none
  | .function args (some returns) => (describeListThrough place 0 args).andThen fun texts =>
    (describeThrough (place.child args.length) returns).map fun text =>
      Description.function texts (some text)
  | .lazy (some label) _ => .done (Description.lazy label)
  | .lazy none source => .force place source fun child _hbuilt =>
    (describeThrough (place.child 0) child).map Description.lazy
  | .optional inner => (describeThrough (place.child 0) inner).map Description.optional
  | leaf => .done leaf.full.describe
termination_by 2 * v.full.size
decreasing_by
  all_goals (try subst _hbuilt)
  all_goals
    simp only [full, Source.full_build, Validator.size]
    omega
/-- Writes the descriptions of a list of validators. -/
def describeListThrough (place : Place) (position : Nat) (vs : List Deferred) :
    Demand (List String) :=
  match vs with
  | [] => .done []
  | v :: rest => (describeThrough (place.child position) v).andThen fun text =>
    (describeListThrough place (position + 1) rest).map (text :: ·)
termination_by 2 * Validator.sizeList (fullList vs) + 1
decreasing_by
  all_goals
    have := v.full.size_pos
    simp only [fullList, Validator.sizeList]
    omega
/-- Writes the descriptions of fields. -/
def describeFieldsThrough (place : Place) (position : Nat) (fields : List (String × Deferred)) :
    Demand (List (String × String)) :=
  match fields with
  | [] => .done []
  | (name, v) :: rest => (describeThrough (place.child position) v).andThen fun text =>
    (describeFieldsThrough place (position + 1) rest).map ((name, text) :: ·)
termination_by 2 * Validator.sizeFields (fullFields fields) + 1
decreasing_by
  all_goals
    have := v.full.size_pos
    simp only [fullFields, Validator.sizeFields]
    omega
end

mutual
/-- With everything built anew, a validator is described as it is in full, and the writer
asks for what describing it builds. -/
theorem outcome_describeThrough (whole : Validator) {v : Deferred} (hfull : v.full = whole)
    (place : Place) :
    (v.describeThrough place).outcome = (whole.describe, whole.builtByDescribe place) := by
  cases whole with
  | object fields closed =>
      obtain ⟨unbuilt, rfl, hfields⟩ := origin_of_full_eq hfull
      rw [describeThrough, Demand.outcome_map, outcome_describeFieldsThrough fields hfields.symm,
        Validator.describe, Validator.builtByDescribe]
  | array item =>
      obtain ⟨unbuilt, rfl, hitem⟩ := origin_of_full_eq hfull
      rw [describeThrough, Demand.outcome_map, outcome_describeThrough item hitem.symm,
        Validator.describe, Validator.builtByDescribe]
  | record value =>
      obtain ⟨unbuilt, rfl, hvalue⟩ := origin_of_full_eq hfull
      rw [describeThrough, Demand.outcome_map, outcome_describeThrough value hvalue.symm,
        Validator.describe, Validator.builtByDescribe]
  | union branches =>
      obtain ⟨unbuilt, rfl, hbranches⟩ := origin_of_full_eq hfull
      rw [describeThrough, Demand.outcome_map, outcome_describeListThrough branches hbranches.symm,
        Validator.describe, Validator.builtByDescribe]
  | function args returns =>
      cases returns with
      | none =>
          obtain ⟨unbuilt, rfl, hargs⟩ := origin_of_full_eq hfull
          rw [describeThrough, Demand.outcome_map, outcome_describeListThrough args hargs.symm,
            Validator.describe, Validator.builtByDescribe]
      | some returns =>
          obtain ⟨unbuilt, given, rfl, hargs, hgiven⟩ := origin_of_full_eq hfull
          have hlength : unbuilt.length = args.length := by rw [hargs, length_fullList]
          rw [describeThrough, Demand.outcome_andThen, Demand.outcome_map,
            outcome_describeListThrough args hargs.symm,
            outcome_describeThrough returns hgiven.symm, hlength, Validator.describe,
            Validator.builtByDescribe]
  | lazy label child =>
      obtain ⟨source, rfl, hchild⟩ := origin_of_full_eq hfull
      cases label with
      | none =>
          rw [describeThrough, Demand.outcome, Demand.outcome_map,
            outcome_describeThrough child (source.full_build.trans hchild.symm),
            Validator.describe, Validator.builtByDescribe]
      | some label =>
          rw [describeThrough, Demand.outcome_done, Validator.describe, Validator.builtByDescribe]
  | optional inner =>
      obtain ⟨unbuilt, rfl, hinner⟩ := origin_of_full_eq hfull
      rw [describeThrough, Demand.outcome_map, outcome_describeThrough inner hinner.symm,
        Validator.describe, Validator.builtByDescribe]
  | _ =>
      cases v with
      | function args returns => cases returns <;> cases hfull
      | _ => cases hfull <;> simp [describeThrough, full, Validator.builtByDescribe]
/-- A list of validators is described as it is in full. -/
theorem outcome_describeListThrough (whole : List Validator) {vs : List Deferred}
    (hfull : fullList vs = whole) (place : Place) (position : Nat) :
    (describeListThrough place position vs).outcome =
      (Validator.describeList whole, Validator.builtByDescribeList place position whole) := by
  cases whole with
  | nil =>
      cases vs with
      | nil => rw [describeListThrough]; rfl
      | cons v vs => cases hfull
  | cons w ws =>
      cases vs with
      | nil => cases hfull
      | cons v vs =>
          obtain ⟨hfirst, hrest⟩ := List.cons.inj hfull
          rw [describeListThrough, Demand.outcome_andThen, Demand.outcome_map,
            outcome_describeThrough w hfirst, outcome_describeListThrough ws hrest,
            Validator.describeList, Validator.builtByDescribeList]
/-- Fields are described as they are in full. -/
theorem outcome_describeFieldsThrough (whole : List (String × Validator))
    {fields : List (String × Deferred)} (hfull : fullFields fields = whole) (place : Place)
    (position : Nat) :
    (describeFieldsThrough place position fields).outcome =
      (Validator.describeFields whole,
        Validator.builtByDescribeFields place position whole) := by
  cases whole with
  | nil =>
      cases fields with
      | nil => rw [describeFieldsThrough]; rfl
      | cons field fields => cases hfull
  | cons w ws =>
      cases fields with
      | nil => cases hfull
      | cons field fields =>
          obtain ⟨name, v⟩ := field
          obtain ⟨same, w⟩ := w
          obtain ⟨hfirst, hrest⟩ := List.cons.inj hfull
          obtain ⟨rfl, hv⟩ := Prod.mk.inj hfirst
          rw [describeFieldsThrough, Demand.outcome_andThen, Demand.outcome_map,
            outcome_describeThrough w hv, outcome_describeFieldsThrough ws hrest,
            Validator.describeFields, Validator.builtByDescribeFields]
end

end Deferred
end SchemaSets
