import SchemaSets.Proofs.Walk
import SchemaSets.Workspace

/-!
# What traversals build

The lazy nodes that a traversal builds are told by functions that go the same way as
the traversal.  Here are their single steps, and for lists that what is built is
built in one of the parts.
-/

namespace SchemaSets

/-! ## Walks, step by step -/

section Steps

variable {shelf : Shelf} {chain : List String} {place : Place} {slot : Slot}

/-- A leaf has nothing to build. -/
theorem builtByWalk_leaf {v : Validator} (h : v.IsLeaf) :
    builtByWalk shelf chain place v slot = [] := by
  cases v <;> first
    | exact h.elim
    | rw [builtByWalk] <;> simp

theorem builtByWalk_noObject {fields : List (String × Validator)} {closed : Bool}
    (h : ∀ members, slot ≠ some (.object members)) :
    builtByWalk shelf chain place (.object fields closed) slot = [] := by
  rw [builtByWalk]
  exact h

theorem builtByWalk_noArray {item : Validator} (h : ∀ items, slot ≠ some (.array items)) :
    builtByWalk shelf chain place (.array item) slot = [] := by
  rw [builtByWalk]
  exact h

theorem builtByWalk_noRecord {value : Validator} (h : ∀ members, slot ≠ some (.object members)) :
    builtByWalk shelf chain place (.record value) slot = [] := by
  rw [builtByWalk]
  exact h

variable {target owner : String} {registry : Handle}

/-- A name of the chain is not followed. -/
theorem builtByWalk_cycle (h : target ∈ chain) :
    builtByWalk shelf chain place (.reference target owner registry) slot = [] := by
  rw [builtByWalk, dif_pos h]

/-- A link that leads nowhere ends the walk. -/
theorem builtByWalk_broken {cause : ReferenceError} (hnew : target ∉ chain)
    (h : shelf.resolve registry target owner = .error cause) :
    builtByWalk shelf chain place (.reference target owner registry) slot = [] := by
  rw [builtByWalk, dif_neg hnew]
  split <;> simp_all

/-- What is built goes on at the root of the entry that is followed. -/
theorem builtByWalk_follow {entry : Entry} (hnew : target ∉ chain)
    (h : shelf.resolve registry target owner = .ok entry) :
    builtByWalk shelf chain place (.reference target owner registry) slot =
      builtByWalk shelf (target :: chain) (.ofEntry registry target) entry.validator slot := by
  rw [builtByWalk, dif_neg hnew]
  split <;> simp_all

end Steps

/-! ## Walks through lists -/

section Lists

variable {shelf : Shelf} {place p : Place}

/-- What fields build is built by one of them. -/
theorem exists_of_mem_builtByFields {fields : List (String × Validator)}
    {members : List (String × Value)} {first : Nat}
    (h : p ∈ builtByFields shelf place first fields members) :
    ∃ position field, fields[position]? = some field ∧
      p ∈ builtByWalk shelf [] (place.child (first + position)) field.2
        (Keyed.find? field.1 members) := by
  induction fields generalizing first with
  | nil =>
      rw [builtByFields] at h
      cases h
  | cons field rest ih =>
      rw [builtByFields, List.mem_append] at h
      rcases h with hfield | hrest
      · exact ⟨0, field, rfl, hfield⟩
      · split at hrest
        · obtain ⟨position, later, hlater, hmem⟩ := ih hrest
          exact ⟨position + 1, later, hlater, by rwa [← Nat.add_assoc, Nat.add_right_comm]⟩
        · cases hrest

/-- What branches build is built by one of them. -/
theorem exists_of_mem_builtByBranches {chain : List String} {branches : List Validator}
    {slot : Slot} {first : Nat} (h : p ∈ builtByBranches shelf chain place first branches slot) :
    ∃ position branch, branches[position]? = some branch ∧
      p ∈ builtByWalk shelf chain (place.child (first + position)) branch slot := by
  induction branches generalizing first with
  | nil =>
      rw [builtByBranches] at h
      cases h
  | cons branch rest ih =>
      rw [builtByBranches, List.mem_append] at h
      rcases h with hbranch | hrest
      · exact ⟨0, branch, rfl, hbranch⟩
      · split at hrest
        · obtain ⟨position, later, hlater, hmem⟩ := ih hrest
          exact ⟨position + 1, later, hlater, by rwa [← Nat.add_assoc, Nat.add_right_comm]⟩
        · cases hrest

/-- What items build is built for one of them. -/
theorem exists_of_mem_builtByItems {item : Validator} {items : List Value}
    (h : p ∈ builtByItems shelf place item items) :
    ∃ x ∈ items, p ∈ builtByWalk shelf [] place item (some x) := by
  induction items with
  | nil =>
      rw [builtByItems] at h
      cases h
  | cons x rest ih =>
      rw [builtByItems, List.mem_append] at h
      rcases h with hitem | hrest
      · exact ⟨x, List.mem_cons_self, hitem⟩
      · split at hrest
        · obtain ⟨later, hlater, hmem⟩ := ih hrest
          exact ⟨later, List.mem_cons_of_mem _ hlater, hmem⟩
        · cases hrest

/-- What the values of a record build is built for one of them. -/
theorem exists_of_mem_builtByMembers {value : Validator} {members : List (String × Value)}
    (h : p ∈ builtByMembers shelf place value members) :
    ∃ member ∈ members, p ∈ builtByWalk shelf [] place value (some member.2) := by
  induction members with
  | nil =>
      rw [builtByMembers] at h
      cases h
  | cons member rest ih =>
      rw [builtByMembers, List.mem_append] at h
      rcases h with hmember | hrest
      · exact ⟨member, List.mem_cons_self, hmember⟩
      · split at hrest
        · obtain ⟨later, hlater, hmem⟩ := ih hrest
          exact ⟨later, List.mem_cons_of_mem _ hlater, hmem⟩
        · cases hrest

end Lists

/-! ## Searches for absence -/

section Searches

variable {shelf : Shelf} {followed : List String} {place : Place} {target owner : String}
  {registry : Handle} {rest : List Located}

/-- What is built goes on at the root of the entry that is followed. -/
theorem builtBySearch_follow {entry : Entry} (hnew : target ∉ followed)
    (h : shelf.resolve registry target owner = .ok entry) :
    builtBySearch shelf followed (⟨place, .reference target owner registry⟩ :: rest) =
      builtBySearch shelf (target :: followed)
        (.ofEntry registry target entry.validator :: rest) := by
  rw [builtBySearch, dif_neg hnew]
  split <;> simp_all

/-- A link that leads nowhere is dropped. -/
theorem builtBySearch_broken {cause : ReferenceError} (hnew : target ∉ followed)
    (h : shelf.resolve registry target owner = .error cause) :
    builtBySearch shelf followed (⟨place, .reference target owner registry⟩ :: rest) =
      builtBySearch shelf (target :: followed) rest := by
  rw [builtBySearch, dif_neg hnew]
  split <;> simp_all

end Searches
end SchemaSets
