import SchemaSets.Proofs.Mappings
import SchemaSets.Proofs.Parts

/-!
# Walks side by side

Two validators may differ in what no check looks at, or in what lies below them, and
still be walked in step.  At a node that is done with its slot this takes a counterpart of
the same kind, whose parts stand at the same places and are counterparts in their turn
(`Validator.Paired`); what makes two validators counterparts of each other is a parameter,
and so is how an open object compares with a closed one.

Two walks are alike if they come to the same, their errors seen through `view`.  Paired
nodes are walked alike if their parts are (`walk_alike`), and unions if their branches are
(`walkBranches_alike`).
-/

namespace SchemaSets

/-- Fields of the same names leave the same members unlisted. -/
theorem unlisted_eq {fields changed : List (String × Validator)}
    (hkeys : Keyed.keys changed = Keyed.keys fields) (members : List (String × Value)) :
    unlisted changed members = unlisted fields members := by
  have hcontains : ∀ name, Keyed.contains name changed = Keyed.contains name fields := by
    intro name
    rw [Bool.eq_iff_iff, Keyed.contains_iff, Keyed.contains_iff, hkeys]
  simp only [unlisted, hcontains]

/-- Parts at one place, for the same slot, with related validators. -/
structure Part.Paired (R : Validator → Validator → Prop) (part counterpart : Part) : Prop where
  segment : counterpart.segment = part.segment
  slot : counterpart.slot = part.slot
  validator : R part.validator counterpart.validator

namespace Validator

/-- Two nodes of one kind that are done with their slots, with related nodes below and
related ways to treat what an object does not list. -/
inductive Paired (R : Validator → Validator → Prop) (C : Bool → Bool → Prop) :
    Validator → Validator → Prop
  | leaf {v : Validator} (hleaf : v.IsLeaf) : Paired R C v v
  | function {args others : List Validator} {returns result : Option Validator} :
      Paired R C (.function args returns) (.function others result)
  | object {fields changed : List (String × Validator)} {closed shut : Bool}
      (each : List.Forall₂ (fun field counterpart => counterpart.1 = field.1 ∧
        R field.2 counterpart.2) fields changed) (treats : C closed shut) :
      Paired R C (.object fields closed) (.object changed shut)
  | array {item changed : Validator} (each : R item changed) :
      Paired R C (.array item) (.array changed)
  | record {value changed : Validator} (each : R value changed) :
      Paired R C (.record value) (.record changed)

namespace Paired

variable {R : Validator → Validator → Prop} {C : Bool → Bool → Prop} {v w : Validator}

/-- Every node that is done with its slot is paired with itself. -/
theorem refl (h : ¬v.PassesOn) : Paired Eq Eq v v := by
  cases v with
  | object fields closed => exact .object (List.forall₂_same.2 fun _ _ => ⟨rfl, rfl⟩) rfl
  | array item => exact .array rfl
  | record value => exact .record rfl
  | union | lazy | reference | optional => exact absurd trivial h
  | _ => exact .leaf trivial

/-- Paired nodes are done with their slots. -/
theorem settled (h : Paired R C v w) : ¬v.PassesOn := by
  cases h with
  | leaf hleaf => exact not_passesOn_of_leaf hleaf
  | function | object | array | record => exact id

/-- Paired nodes ask for the same. -/
theorem asks?_eq (h : Paired R C v w) : w.asks? = v.asks? := by
  cases h <;> rfl

/-- Paired nodes find what they ask for in the same slots. -/
theorem admits_eq (h : Paired R C v w) (slot : Slot) : w.admits slot = v.admits slot := by
  cases h with
  | leaf | function => rfl
  | object | array | record => rcases slot with _ | (_ | _ | _ | _ | _ | _ | _) <;> rfl

/-- The parts of paired nodes are paired. -/
theorem parts (h : Paired R C v w) (slot : Slot) :
    List.Forall₂ (Part.Paired R) (v.parts slot) (w.parts slot) := by
  cases h with
  | leaf hleaf =>
      rw [parts_of_leaf hleaf]
      exact .nil
  | function => exact .nil
  | object each =>
      rcases slot with _ | (_ | _ | _ | _ | _ | members | _)
      case some.object =>
        rw [Validator.parts, Validator.parts, List.forall₂_map_left_iff,
          List.forall₂_map_right_iff]
        refine each.imp fun field counterpart hpair => ?_
        exact ⟨congrArg Segment.field hpair.1, congrArg (Keyed.find? · members) hpair.1, hpair.2⟩
      all_goals exact .nil
  | array each =>
      rcases slot with _ | (_ | _ | _ | _ | items | _ | _)
      case some.array =>
        rw [Validator.parts, Validator.parts, List.forall₂_map_left_iff,
          List.forall₂_map_right_iff]
        exact List.forall₂_same.2 fun numbered _ => ⟨rfl, rfl, each⟩
      all_goals exact .nil
  | record each =>
      rcases slot with _ | (_ | _ | _ | _ | _ | members | _)
      case some.object =>
        rw [Validator.parts, Validator.parts, List.forall₂_map_left_iff,
          List.forall₂_map_right_iff]
        exact List.forall₂_same.2 fun member _ => ⟨rfl, rfl, each⟩
      all_goals exact .nil

/-- Paired objects that are open or closed alike refuse the same. -/
theorem strays_eq (h : Paired R Eq v w) (slot : Slot) : w.strays slot = v.strays slot := by
  cases h with
  | leaf | function | array | record => rfl
  | @object fields changed closed _ each treats =>
      subst treats
      have hkeys : Keyed.keys changed = Keyed.keys fields := Keyed.keys_eq_of_forall₂ each
      rcases slot with _ | (_ | _ | _ | _ | _ | members | _)
      case some.object =>
        cases closed with
        | false => rfl
        | true => exact unlisted_eq hkeys members
      all_goals cases closed <;> rfl

end Paired
end Validator

section Walks

variable {shelf other : Shelf} {v w : Validator} {slot : Slot}

/-- What holds of the walks of related validators holds of those of paired parts. -/
theorem Validator.Paired.walk_parts {R : Validator → Validator → Prop} {C : Bool → Bool → Prop}
    {Q : Except ReferenceError (List Issue) → Except ReferenceError (List Issue) → Prop}
    (hpaired : v.Paired R C w)
    (hparts : ∀ part ∈ v.parts slot, ∀ counterpart, R part.validator counterpart →
      Q (walk shelf [] part.validator part.slot) (walk other [] counterpart part.slot)) :
    List.Forall₂ (fun part counterpart => counterpart.segment = part.segment ∧
      Q (walk shelf [] part.validator part.slot)
        (walk other [] counterpart.validator counterpart.slot)) (v.parts slot) (w.parts slot) := by
  have hpairs := (List.forall₂_and_left _ _).2 ⟨hparts, hpaired.parts slot⟩
  refine hpairs.imp fun part counterpart hpair => ⟨hpair.2.segment, ?_⟩
  rw [hpair.2.slot]
  exact hpair.1 _ hpair.2.validator

variable {chain followed : List String} {view : ReferenceError → ReferenceError}

/-- Branches that are walked alike are tried alike. -/
theorem walkBranches_alike {branches changed : List Validator}
    (h : List.Forall₂ (fun branch counterpart =>
      (walk other followed counterpart slot).mapError view =
        (walk shelf chain branch slot).mapError view) branches changed) :
    (walkBranches other followed changed slot).mapError view =
      (walkBranches shelf chain branches slot).mapError view := by
  induction h with
  | nil => rw [walkBranches, walkBranches]
  | cons hfirst _ ih =>
      rw [walkBranches, walkBranches, mapError_bind_eq, mapError_bind_eq, hfirst]
      refine congrArg _ (funext fun issues => ?_)
      by_cases hnone : issues.isEmpty
      · rw [if_pos hnone, if_pos hnone]
      · rw [if_neg hnone, if_neg hnone, ih]

/-- Parts at the same places that are walked alike have the same issues. -/
theorem walkParts_alike {parts changed : List Part}
    (h : List.Forall₂ (fun part counterpart => counterpart.segment = part.segment ∧
      (walk other [] counterpart.validator counterpart.slot).mapError view =
        (walk shelf [] part.validator part.slot).mapError view) parts changed) :
    (walkParts other changed).mapError view = (walkParts shelf parts).mapError view := by
  induction h with
  | nil => rfl
  | cons hfirst _ ih => simp only [walkParts, mapError_bind_eq, hfirst.1, hfirst.2, ih]

/-- Paired nodes are walked alike if their parts are. -/
theorem walk_alike {R : Validator → Validator → Prop} (hpaired : v.Paired R Eq w)
    (hparts : ∀ part ∈ v.parts slot, ∀ counterpart, R part.validator counterpart →
      (walk other [] counterpart part.slot).mapError view =
        (walk shelf [] part.validator part.slot).mapError view) :
    (walk other followed w slot).mapError view = (walk shelf chain v slot).mapError view := by
  have hall : (walkParts other (w.parts slot)).mapError view =
      (walkParts shelf (v.parts slot)).mapError view :=
    walkParts_alike (hpaired.walk_parts (Q := fun walked counterpart =>
      counterpart.mapError view = walked.mapError view) hparts)
  rcases Validator.any_or_asks hpaired.settled with rfl | ⟨expected, hasks⟩
  · cases hpaired
    rw [walk_any, walk_any]
  · rw [walk_of_asks hasks, walk_of_asks (hpaired.asks?_eq.trans hasks), hpaired.admits_eq,
      hpaired.strays_eq]
    by_cases hadmits : v.admits slot = true
    · rw [if_pos hadmits, if_pos hadmits, mapError_map_eq, mapError_map_eq, hall]
    · rw [if_neg hadmits, if_neg hadmits]

end Walks

/-- No shelf matters to a leaf. -/
theorem walk_leaf_eq (shelf other : Shelf) (chain : List String) {v : Validator} (slot : Slot)
    (hleaf : v.IsLeaf) : walk other chain v slot = walk shelf chain v slot := by
  have hnone : v.parts slot = [] := Validator.parts_of_leaf hleaf
  exact eq_of_mapError_id (walk_alike (R := Eq) (.leaf hleaf) (by simp [hnone]))

end SchemaSets
