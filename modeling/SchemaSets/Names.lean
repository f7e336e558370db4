/-!
# Names not yet met

A search that follows names comes to an end because it follows each name once.
What goes down is the number of names that it has not met, and the lemmas here
say so.
-/

namespace SchemaSets

/-- How many of some names are not in a list. -/
def freshAmong (names followed : List String) : Nat :=
  (names.filter fun name => name ∉ followed).length

/-- One more name in the list leaves no more names outside it. -/
theorem freshAmong_cons_le (names : List String) (name : String) (followed : List String) :
    freshAmong names (name :: followed) ≤ freshAmong names followed := by
  induction names with
  | nil => simp [freshAmong]
  | cons other rest ih =>
    simp only [freshAmong, List.filter_cons, List.mem_cons, not_or] at ih ⊢
    by_cases h : other ∈ followed <;> by_cases hn : other = name <;> simp_all
    omega

/-- One more name in the list that was outside it leaves fewer outside. -/
theorem freshAmong_cons_lt {names : List String} {name : String} {followed : List String}
    (hmem : name ∈ names) (hnew : name ∉ followed) :
    freshAmong names (name :: followed) < freshAmong names followed := by
  induction names with
  | nil => simp at hmem
  | cons other rest ih =>
    by_cases hn : other = name
    · have hle := freshAmong_cons_le rest name followed
      subst hn
      simp only [freshAmong] at hle
      simp [freshAmong, hnew] at hle ⊢
      omega
    · have hlt := ih (by simp_all [Ne.symm])
      simp only [freshAmong] at hlt
      by_cases h : other ∈ followed <;> simp [freshAmong, h, hn] at hlt ⊢ <;> omega

/-- No more names can be unmet than there are. -/
theorem freshAmong_le (names followed : List String) :
    freshAmong names followed ≤ names.length :=
  List.length_filter_le _ _

end SchemaSets
