import SchemaSets.Validator.Absence
import SchemaSets.Proofs.Fits
import SchemaSets.Proofs.Links

/-!
# What the search for absence finds

The search of `Validator.Absence` keeps a name marked as followed when it goes
on to another alternative, although that alternative may lead to the same name
again.  It loses nothing by this.  A reason that follows a marked name can be
shortened to one for the entry of that name (`FitsBeyond.cut`), and that entry
was put on the stack when the name was marked.

So the search answers the question that it was made for: an empty slot fits a
validator exactly if `mayBeAbsent` says so (`mayBeAbsent_iff`).
-/

namespace SchemaSets

variable {shelf : Shelf} {set : CompiledSet} {Met : Link → Prop}

/-- What looks for a value fits no empty slot, beyond any names. -/
private theorem not_fitsBeyond_none {followed : List String} {v : Validator}
    (hany : v ≠ .any) (hoptional : ∀ inner, v ≠ .optional inner)
    (hlazy : ∀ label child, v ≠ .lazy label child) (hunion : ∀ branches, v ≠ .union branches)
    (hreference : ∀ target owner through, v ≠ .reference target owner through) :
    ¬FitsBeyond set followed v none := by
  intro h
  generalize hslot : (none : Slot) = slot at h
  cases h with
  | leaf takes =>
      subst hslot
      cases v with
      | any => exact hany rfl
      | literal | boolean | string | number | enumeration | function => cases takes
      | object | array | record | union | lazy | reference | optional => cases takes
  | object | array | record | present => cases hslot
  | union => exact hunion _ rfl
  | lazy => exact hlazy _ _ rfl
  | reference => exact hreference _ _ _ rfl
  | absent => exact hoptional _ rfl

/-- Marking a name as followed takes nothing away from what is left to look at,
if the entry of the name is looked at as well. -/
private theorem marked_or_exists_iff (set : CompiledSet) (followed : List String)
    (rest : List Validator) (target : String) :
    ((∃ entry, set.get? target = some entry ∧
        FitsBeyond set (target :: followed) entry.validator none) ∨
      ∃ v ∈ rest, FitsBeyond set (target :: followed) v none) ↔
    ((∃ entry, set.get? target = some entry ∧
        FitsBeyond set (target :: followed) entry.validator none) ∨
      ∃ v ∈ rest, FitsBeyond set followed v none) := by
  constructor
  · rintro (hentry | ⟨v, hv, hfits⟩)
    · exact .inl hentry
    · exact .inr ⟨v, hv, hfits.mono (List.subset_cons_self _ _)⟩
  · rintro (hentry | ⟨v, hv, hfits⟩)
    · exact .inl hentry
    · rcases hfits.cut target with hfits | hentry
      · exact .inr ⟨v, hv, hfits⟩
      · exact .inl hentry

/-- The search finds out whether one of the alternatives fits an empty slot for
a reason beyond the names that it followed. -/
theorem absenceSearch_iff (hset : Resolves shelf set Met) {followed : List String}
    {stack : List Validator} (hlinks : ∀ link ∈ Validator.linksOfList stack, Met link) :
    absenceSearch shelf followed stack = true ↔
      ∃ v ∈ stack, FitsBeyond set followed v none := by
  fun_induction absenceSearch shelf followed stack with
  | case1 followed => simp
  | case2 followed rest =>
      have hany : FitsBeyond set followed .any none := .leaf rfl
      simp [hany]
  | case3 followed inner rest =>
      have habsent : FitsBeyond set followed (.optional inner) none := .absent
      simp [habsent]
  | case4 followed label child rest ih =>
      rw [ih (by simpa [Validator.linksOfList, Validator.links] using hlinks)]
      simp [FitsBeyond.lazy_iff]
  | case5 followed branches rest ih =>
      rw [ih (by simpa [Validator.linksOfList, Validator.links, or_imp, forall_and] using hlinks)]
      simp [FitsBeyond.union_iff, or_and_right, exists_or]
  | case6 followed target owner through rest hmet ih =>
      rw [Validator.linksOfList, List.forall_mem_append] at hlinks
      rw [ih hlinks.2]
      simp [FitsBeyond.reference_iff, hmet]
  | case7 followed target owner through rest hnew cause hresolve ih =>
      rw [Validator.linksOfList, List.forall_mem_append] at hlinks
      have hnone := hset.get?_eq_none (hlinks.1 _ (List.mem_singleton_self _)) hresolve
      rw [ih hlinks.2]
      have hmarked := marked_or_exists_iff set followed rest target
      simpa [FitsBeyond.reference_iff, hnone] using hmarked
  | case8 followed target owner through rest hnew entry hresolve ih =>
      rw [Validator.linksOfList, List.forall_mem_append] at hlinks
      have hmet : Met ⟨target, owner, through⟩ := hlinks.1 _ (List.mem_singleton_self _)
      have hfound := (hset.found hmet).1 hresolve
      have hentry : ∀ link ∈ Validator.linksOfList (entry.validator :: rest), Met link :=
        List.forall_mem_append.2 ⟨hset.onward hmet hresolve, hlinks.2⟩
      rw [ih hentry]
      have hmarked := marked_or_exists_iff set followed rest target
      simpa [FitsBeyond.reference_iff, hnew, hfound] using hmarked
  | case9 followed v rest hany hoptional hlazy hunion hreference ih =>
      rw [Validator.linksOfList, List.forall_mem_append] at hlinks
      rw [ih hlinks.2]
      have hnot : ¬FitsBeyond set followed v none :=
        not_fitsBeyond_none hany hoptional hlazy hunion hreference
      simp [hnot]

/-- An empty slot fits a validator exactly if the validator may be absent. -/
theorem Resolves.mayBeAbsent_iff (hset : Resolves shelf set Met) {v : Validator}
    (hlinks : ∀ link ∈ v.links, Met link) : v.mayBeAbsent shelf = true ↔ Fits set v none := by
  have hlist : ∀ link ∈ Validator.linksOfList [v], Met link := by
    simpa [Validator.linksOfList] using hlinks
  rw [Validator.mayBeAbsent, absenceSearch_iff hset hlist]
  simp [Fits]

/-- Inside one set an empty slot fits a validator exactly if the validator may be
absent. -/
theorem mayBeAbsent_iff {registry : Handle} (hset : Stands shelf registry set) {v : Validator}
    (hinward : ∀ link ∈ v.links, link.registry = registry) :
    v.mayBeAbsent shelf = true ↔ Fits set v none :=
  hset.resolves.mayBeAbsent_iff hinward

end SchemaSets
