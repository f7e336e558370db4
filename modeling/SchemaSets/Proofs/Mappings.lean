import Mathlib.Data.List.Forall2
import Mathlib.Data.List.Sort
import Mathlib.Data.Option.Defs
import SchemaSets.Keyed

/-!
# Mappings with the same content

A mapping stands in key order, so what it maps determines it: two mappings that
find the same at every key are one list, and two sets of names with the same
members are one list.

Mappings of the same keys whose values are related in some way one by one find
related values at every key (`rel_find?`).
-/

namespace SchemaSets.Keyed

/-- Two mappings of the same pairs are equal. -/
theorem eq_of_mem_iff {α : Type} {left right : List (String × α)} (hleft : Sorted left)
    (hright : Sorted right) (h : ∀ entry, entry ∈ left ↔ entry ∈ right) : left = right := by
  have : Std.Irrefl fun a b : String × α => a.1 < b.1 := ⟨fun a => String.lt_irrefl a.1⟩
  have : Std.Antisymm fun a b : String × α => a.1 < b.1 :=
    ⟨fun a b hab hba => absurd (String.lt_trans hab hba) (String.lt_irrefl a.1)⟩
  exact List.Pairwise.eq_of_mem_iff hleft hright h

/-- Two mappings that find the same at every key are equal. -/
theorem eq_of_find?_eq {α : Type} {left right : List (String × α)} (hleft : Sorted left)
    (hright : Sorted right) (h : ∀ key, find? key left = find? key right) : left = right := by
  apply eq_of_mem_iff hleft hright
  intro entry
  constructor
  · intro hentry
    have hfound : find? entry.1 left = some entry.2 := find?_of_mem hleft hentry
    rw [h] at hfound
    exact mem_of_find? hfound
  · intro hentry
    have hfound : find? entry.1 right = some entry.2 := find?_of_mem hright hentry
    rw [← h] at hfound
    exact mem_of_find? hfound

/-- A mapping has each key once. -/
theorem nodup_keys {α : Type} {entries : List (String × α)} (h : Sorted entries) :
    (keys entries).Nodup := by
  have hascending : (keys entries).Pairwise (· < ·) := List.pairwise_map.2 h
  refine hascending.imp ?_
  rintro name _ hlt rfl
  exact String.lt_irrefl name hlt

/-- A mapping is made from its own pairs. -/
theorem ofList_of_sorted {α : Type} {entries : List (String × α)} (h : Sorted entries) :
    ofList entries = entries := by
  obtain ⟨hsorted, hmem⟩ := sorted_ofList entries
  apply eq_of_mem_iff hsorted h
  intro entry
  exact ⟨hmem entry, fun hentry => mem_of_find? (find?_ofList_of_mem (nodup_keys h) hentry)⟩

/-- Two lists of the same names are one set of names. -/
theorem nameSet_eq_of_mem_iff {left right : List String}
    (h : ∀ name, name ∈ left ↔ name ∈ right) : nameSet left = nameSet right := by
  have hlisted : ∀ (names : List String) (entry : String × Unit),
      entry ∈ ofList (names.map fun name => (name, ())) ↔ entry.1 ∈ names := by
    intro names entry
    have hkey : entry.1 ∈ nameSet names ↔ entry.1 ∈ names := mem_nameSet
    rw [← hkey, nameSet, keys, List.mem_map]
    constructor
    · intro hentry
      exact ⟨entry, hentry, rfl⟩
    · rintro ⟨other, hother, hname⟩
      -- pairs of one name are equal, since nothing is said of a name
      have hsame : other = entry := Prod.ext hname rfl
      exact hsame ▸ hother
  apply congrArg keys
  apply eq_of_mem_iff (sorted_ofList _).1 (sorted_ofList _).1
  intro entry
  rw [hlisted, hlisted, h]

section Related

variable {α β : Type} {R : α → β → Prop} {as : List (String × α)} {bs : List (String × β)}

/-- Related mappings have the same keys. -/
theorem keys_eq_of_forall₂ (h : List.Forall₂ (fun a b => b.1 = a.1 ∧ R a.2 b.2) as bs) :
    keys bs = keys as := by
  have hkeys : List.Forall₂ Eq (bs.map Prod.fst) (as.map Prod.fst) := by
    rw [List.forall₂_map_left_iff, List.forall₂_map_right_iff]
    exact h.flip.imp fun _ _ hpair => hpair.1
  rwa [List.forall₂_eq_eq_eq] at hkeys

/-- At every key stand related values, or none. -/
theorem rel_find? (h : List.Forall₂ (fun a b => b.1 = a.1 ∧ R a.2 b.2) as bs) (key : String) :
    Option.Rel R (find? key as) (find? key bs) := by
  induction h with
  | nil => exact .none
  | @cons a b _ _ hfirst _ ih =>
      obtain ⟨name, x⟩ := a
      obtain ⟨same, y⟩ := b
      obtain ⟨rfl, hrelated⟩ := hfirst
      rw [find?, find?]
      by_cases hkey : same = key
      · rw [if_pos hkey, if_pos hkey]
        exact .some hrelated
      · rw [if_neg hkey, if_neg hkey]
        exact ih

/-- What is found at a key has a counterpart at that key. -/
theorem exists_of_find? (h : List.Forall₂ (fun a b => b.1 = a.1 ∧ R a.2 b.2) as bs)
    {key : String} {x : α} (hx : find? key as = some x) : ∃ y, find? key bs = some y ∧ R x y := by
  have hrel := rel_find? h key
  rw [hx] at hrel
  cases hcounterpart : find? key bs with
  | none =>
      rw [hcounterpart] at hrel
      cases hrel
  | some y =>
      rw [hcounterpart] at hrel
      cases hrel with
      | some hrelated => exact ⟨y, rfl, hrelated⟩

/-- What stands in the second of two related lists is related to something in the
first. -/
theorem exists_of_mem_right {R : α → β → Prop} {as : List α} {bs : List β}
    (h : List.Forall₂ R as bs) {b : β} (hb : b ∈ bs) : ∃ a ∈ as, R a b := by
  induction h with
  | nil => cases hb
  | @cons a other _ _ hfirst _ ih =>
      rcases List.mem_cons.1 hb with rfl | hrest
      · exact ⟨a, List.mem_cons_self, hfirst⟩
      · obtain ⟨found, hmem, hrelated⟩ := ih hrest
        exact ⟨found, List.mem_cons_of_mem _ hmem, hrelated⟩

/-- What has counterparts one by one has a list of them. -/
theorem exists_forall₂ {R : α → β → Prop} {as : List α}
    (h : ∀ a ∈ as, ∃ b, R a b) : ∃ bs, List.Forall₂ R as bs := by
  induction as with
  | nil => exact ⟨[], .nil⟩
  | cons a as ih =>
      rw [List.forall_mem_cons] at h
      obtain ⟨⟨b, hb⟩, hrest⟩ := h
      obtain ⟨bs, hbs⟩ := ih hrest
      exact ⟨b :: bs, .cons hb hbs⟩

end Related

end SchemaSets.Keyed
