import SchemaSets.DescriptionDiff
import SchemaSets.Proofs.Mappings

/-!
# What differences tell

Comparing two maps of descriptions loses nothing and adds nothing: every name on
which the maps differ is told of once, and no other name is.  A text that only one
map has is told in full.  Of two texts for one name the words are told that went
and the words that came, and without them both texts have the same words left.

The words of a text are what stands between its blank characters (`Text.split`).
Cutting a text into runs, as a comparison does, finds the same words
(`words_eq_split`).

## Main results

* `interleaves_side` — a side of a script is its changed items among the kept ones.
* `between_tells_exactly` — the differences of two maps, name by name.
-/

namespace SchemaSets

/-! ## Words -/

namespace Text

/-- The pieces of a text between its blank characters, without the empty ones. -/
def split (text : String) : List String :=
  ((text.toList.splitOnP isBlank).filter fun piece => !piece.isEmpty).map String.ofList

/-- A character joins the run after it, or is a run of its own. -/
theorem runs_cons_of_eq {p : Char → Bool} {c d : Char} {rest run : List Char}
    {more : List (List Char)} (h : runs p rest = (d :: run) :: more) :
    runs p (c :: rest) =
      if p c = p d then (c :: d :: run) :: more else [c] :: (d :: run) :: more := by
  rw [runs, h]

/-- The first run of a text begins it and goes on with characters of its kind. -/
theorem exists_runs_cons (p : Char → Bool) (c : Char) (rest : List Char) :
    ∃ run more, runs p (c :: rest) = (c :: run) :: more ∧ ∀ d ∈ run, p d = p c := by
  induction rest generalizing c with
  | nil => exact ⟨[], [], rfl, List.forall_mem_nil _⟩
  | cons d rest ih =>
      obtain ⟨run, more, hruns, hsame⟩ := ih d
      rw [runs_cons_of_eq hruns]
      by_cases hkind : p c = p d
      · refine ⟨d :: run, more, if_pos hkind, List.forall_mem_cons.2 ⟨hkind.symm, ?_⟩⟩
        exact fun e he => (hsame e he).trans hkind.symm
      · exact ⟨[], (d :: run) :: more, if_neg hkind, List.forall_mem_nil _⟩

/-- The runs that are not of one kind are the pieces between the characters of that
kind, where there are any. -/
theorem filter_runs (p : Char → Bool) (cs : List Char) :
    (runs p cs).filter (fun run => !run.all p) =
      (cs.splitOnP p).filter fun piece => !piece.isEmpty := by
  induction cs with
  | nil => rfl
  | cons c rest ih =>
      rw [List.splitOnP_cons_eq_if_modifyHead]
      cases rest with
      | nil => cases hc : p c <;> simp [runs, hc]
      | cons d rest =>
          obtain ⟨run, more, hruns, hsame⟩ := exists_runs_cons p d rest
          rw [hruns] at ih
          rw [runs_cons_of_eq hruns]
          have hrun : p d = true → run.all p = true := fun hd =>
            List.all_eq_true.2 fun e he => (hsame e he).trans hd
          cases hc : p c with
          | true =>
              -- a blank begins no piece, and no run of blanks is a word
              rw [if_pos rfl, List.filter_cons_of_neg (by simp), ← ih]
              cases hd : p d with
              | true =>
                  have hblank : ((d :: run).all p) = true := by
                    rw [List.all_cons, hd, hrun hd]
                    rfl
                  have hlonger : ((c :: d :: run).all p) = true := by
                    rw [List.all_cons, hc, hblank]
                    rfl
                  rw [if_pos rfl, List.filter_cons_of_neg (by rw [hlonger]; decide),
                    List.filter_cons_of_neg (by rw [hblank]; decide)]
              | false => rw [if_neg (by decide), List.filter_cons_of_neg (by simp [hc])]
          | false =>
              rw [if_neg Bool.false_ne_true]
              rw [List.splitOnP_cons_eq_if_modifyHead] at ih ⊢
              cases hd : p d with
              | true => simp_all
              | false =>
                  obtain ⟨first, later, hsplit⟩ :=
                    List.exists_cons_of_ne_nil (List.splitOnP_ne_nil p rest)
                  simp_all

/-- The words of a text are its pieces between blank characters. -/
theorem words_eq_split (text : String) :
    (tokens text).filter (fun token => !isGap token) = split text := by
  have hgap : (fun token => !isGap token) ∘ String.ofList = fun run => !run.all isBlank := by
    funext run
    simp [isGap]
  rw [tokens, split, List.filter_map, hgap, filter_runs]

end Text

/-! ## Words among words -/

/-- A list is made of two others, each in its order: the first two are what is left of
it without the other. -/
inductive Interleaves {α : Type} : List α → List α → List α → Prop
  | nil : Interleaves [] [] []
  | first {x : α} {xs ys zs : List α} (rest : Interleaves xs ys zs) :
      Interleaves (x :: xs) ys (x :: zs)
  | second {y : α} {xs ys zs : List α} (rest : Interleaves xs ys zs) :
      Interleaves xs (y :: ys) (y :: zs)

namespace Interleaves

variable {α : Type} {xs ys zs : List α}

/-- The first list is a part of the whole. -/
theorem sublist (h : Interleaves xs ys zs) : xs.Sublist zs := by
  induction h with
  | nil => exact .slnil
  | first _ ih => exact ih.cons_cons _
  | second _ ih => exact ih.cons _

/-- More items at the start of the first list stand at the start of the whole. -/
theorem append (h : Interleaves xs ys zs) (more : List α) :
    Interleaves (more ++ xs) ys (more ++ zs) := by
  induction more with
  | nil => exact h
  | cons x more ih => exact .first ih

/-- Leaving out items of a kind leaves them out everywhere. -/
theorem filter (h : Interleaves xs ys zs) (p : α → Bool) :
    Interleaves (xs.filter p) (ys.filter p) (zs.filter p) := by
  induction h with
  | nil => exact .nil
  | @first x _ _ _ _ ih =>
      by_cases hx : p x = true
      · rw [List.filter_cons_of_pos hx, List.filter_cons_of_pos hx]
        exact .first ih
      · rwa [List.filter_cons_of_neg hx, List.filter_cons_of_neg hx]
  | @second y _ _ _ _ ih =>
      by_cases hy : p y = true
      · rw [List.filter_cons_of_pos hy, List.filter_cons_of_pos hy]
        exact .second ih
      · rwa [List.filter_cons_of_neg hy, List.filter_cons_of_neg hy]

end Interleaves

namespace Text.Edit

variable {α : Type}

/-- The items that a script keeps. -/
def kept : List (Edit α) → List α
  | [] => []
  | .keep x :: rest => x :: kept rest
  | .change _ _ :: rest => kept rest

/-- A side of a script is its changed items of that kind among the kept ones. -/
theorem interleaves_side (kind : Change) (script : List (Edit α)) :
    Interleaves (changed kind script) (kept script) (side kind script) := by
  induction script with
  | nil => exact .nil
  | cons edit rest ih =>
      rw [side_cons]
      cases edit with
      | keep x => exact .second ih
      | change other items =>
          rw [changed, kept, onSide]
          by_cases hkind : other = kind
          · rw [if_pos hkind, if_pos hkind]
            exact ih.append items
          · rwa [if_neg hkind, if_neg hkind]

end Text.Edit

/-! ## Differences -/

namespace DescriptionDiff

/-- Words that went from one text and words that came in another: they are words of
the two, and without them both have the same words left. -/
structure TellsWords (old new : String) (removed added : List String) : Prop where
  removed_sublist : removed.Sublist (Text.split old)
  added_sublist : added.Sublist (Text.split new)
  left : ∃ kept, Interleaves removed kept (Text.split old) ∧
    Interleaves added kept (Text.split new)

/-- A difference tells what two maps have at a name on which they differ. -/
inductive Tells (left right : List (String × String)) : DescriptionDiff → Prop
  | onlyLeft {name text : String} (here : Keyed.find? name left = some text)
      (there : Keyed.find? name right = none) : Tells left right (.onlyLeft name text)
  | changed {name old new : String} {removed added : List String}
      (before : Keyed.find? name left = some old) (after : Keyed.find? name right = some new)
      (differ : old ≠ new) (words : TellsWords old new removed added) :
      Tells left right (.changed name removed added)
  | onlyRight {name text : String} (here : Keyed.find? name right = some text)
      (there : Keyed.find? name left = none) : Tells left right (.onlyRight name text)

variable {left right : List (String × String)}

/-- What is told of two texts are the words between which they differ. -/
theorem tellsWords_ofTexts (name old new : String) :
    ∃ removed added, ofTexts name old new = .changed name removed added ∧
      TellsWords old new removed added := by
  let edits := Text.Edit.script (Text.tokens old) (Text.tokens new)
  have hold := (Text.Edit.interleaves_side .deletion edits).filter fun token => !Text.isGap token
  have hnew := (Text.Edit.interleaves_side .insertion edits).filter fun token => !Text.isGap token
  have hbefore : Text.Edit.side .deletion edits = Text.tokens old :=
    Text.Edit.before_script _ _
  have hafter : Text.Edit.side .insertion edits = Text.tokens new :=
    Text.Edit.after_script _ _
  rw [hbefore, Text.words_eq_split] at hold
  rw [hafter, Text.words_eq_split] at hnew
  exact ⟨_, _, rfl, hold.sublist, hnew.sublist, _, hold, hnew⟩

/-- At a name of the left map, what is told is told of that name. -/
theorem tells_of_atLeft? {name text : String} {d : DescriptionDiff}
    (hfound : Keyed.find? name left = some text) (h : atLeft? right name text = some d) :
    d.name = name ∧ Tells left right d := by
  rw [atLeft?] at h
  split at h
  · next hmissing =>
      cases h
      exact ⟨rfl, .onlyLeft hfound hmissing⟩
  · next other hother =>
      split at h
      · cases h
      · next hdiffer =>
          obtain ⟨removed, added, htold, hwords⟩ := tellsWords_ofTexts name text other
          rw [htold] at h
          cases h
          exact ⟨rfl, .changed hfound hother hdiffer hwords⟩

/-- Something is told at a name of the left map exactly if the right map has something
else there. -/
theorem atLeft?_isSome {name text : String} :
    (atLeft? right name text).isSome = decide (some text ≠ Keyed.find? name right) := by
  rw [atLeft?]
  cases Keyed.find? name right with
  | none => simp
  | some other => by_cases hsame : text = other <;> simp [hsame]

/-- The names told of at the left map are those that the right map has something else
for, in order. -/
theorem map_name_filterMap (hsorted : Keyed.Sorted left) :
    (left.filterMap fun entry => atLeft? right entry.1 entry.2).map name =
      (Keyed.keys left).filter fun name => Keyed.find? name left ≠ Keyed.find? name right := by
  have hall : ∀ entries : List (String × String), (∀ entry ∈ entries, entry ∈ left) →
      (entries.filterMap fun entry => atLeft? right entry.1 entry.2).map name =
        (Keyed.keys entries).filter fun name =>
          Keyed.find? name left ≠ Keyed.find? name right := by
    intro entries
    induction entries with
    | nil => exact fun _ => rfl
    | cons entry rest ih =>
        intro hmem
        rw [List.forall_mem_cons] at hmem
        have hfound : Keyed.find? entry.1 left = some entry.2 :=
          Keyed.find?_of_mem hsorted hmem.1
        have hsome : (atLeft? right entry.1 entry.2).isSome =
            decide (some entry.2 ≠ Keyed.find? entry.1 right) := atLeft?_isSome
        rw [← hfound] at hsome
        rw [Keyed.keys, List.map_cons, ← Keyed.keys]
        cases htold : atLeft? right entry.1 entry.2 with
        | none =>
            rw [htold] at hsome
            rw [List.filterMap_cons, htold, ih hmem.2, List.filter_cons_of_neg]
            simpa using hsome
        | some d =>
            rw [htold] at hsome
            rw [List.filterMap_cons, htold, List.map_cons, ih hmem.2,
              (tells_of_atLeft? hfound htold).1, List.filter_cons_of_pos]
            simpa using hsome
  exact hall left fun _ h => h

/-- The names told of at the right map are those that the left map does not have, in
order. -/
theorem map_name_onlyRight :
    ((right.filter fun entry => !Keyed.contains entry.1 left).map fun entry =>
        onlyRight entry.1 entry.2).map name =
      (Keyed.keys right).filter fun name => Keyed.find? name left = none := by
  have hnone : (fun name => decide (Keyed.find? name left = none)) ∘ Prod.fst =
      fun entry : String × String => !Keyed.contains entry.1 left := by
    funext entry
    cases hfound : Keyed.find? entry.1 left <;> simp [Keyed.contains, hfound]
  rw [Keyed.keys, List.filter_map, hnone, List.map_map]
  rfl

/-- The differences of two maps tell of every name on which these differ, once, and of
no other: first, in order, of the names of the left map for which the right one has
nothing or something else, then, in order, of the names that only the right map has.
Each tells what the maps have at its name. -/
theorem between_tells_exactly (hleft : Keyed.Sorted left) (hright : Keyed.Sorted right) :
    ∃ here there, (between left right).map name = here ++ there ∧
      here = (Keyed.keys left).filter (fun name =>
        Keyed.find? name left ≠ Keyed.find? name right) ∧
      there = (Keyed.keys right).filter (fun name => Keyed.find? name left = none) ∧
      here.Pairwise (· < ·) ∧ there.Pairwise (· < ·) ∧ (here ++ there).Nodup ∧
      (∀ name, name ∈ here ++ there ↔ Keyed.find? name left ≠ Keyed.find? name right) ∧
      ∀ d ∈ between left right, Tells left right d := by
  have hascending : ∀ {entries : List (String × String)}, Keyed.Sorted entries →
      (Keyed.keys entries).Pairwise (· < ·) := fun hsorted => List.pairwise_map.2 hsorted
  have hkey : ∀ {entries : List (String × String)} {name : String},
      name ∈ Keyed.keys entries ↔ Keyed.find? name entries ≠ none := by
    intro entries name
    rw [← Keyed.contains_iff, Keyed.contains, Option.isSome_iff_ne_none]
  refine ⟨_, _, ?_, rfl, rfl, (hascending hleft).filter _, (hascending hright).filter _, ?_, ?_,
    ?_⟩
  · rw [between, List.map_append, map_name_filterMap hleft, map_name_onlyRight]
  · refine List.nodup_append.2 ⟨(Keyed.nodup_keys hleft).filter _,
      (Keyed.nodup_keys hright).filter _, ?_⟩
    rintro name hhere _ hthere rfl
    exact hkey.1 (List.mem_filter.1 hhere).1 (of_decide_eq_true (List.mem_filter.1 hthere).2)
  · intro name
    rw [List.mem_append, List.mem_filter, List.mem_filter, hkey, hkey]
    cases hname : Keyed.find? name left with
    | none => cases hother : Keyed.find? name right <;> simp
    | some text => simp
  · intro d hd
    rcases List.mem_append.1 hd with hd | hd
    · obtain ⟨entry, hentry, htold⟩ := List.mem_filterMap.1 hd
      exact (tells_of_atLeft? (Keyed.find?_of_mem hleft hentry) htold).2
    · obtain ⟨entry, hentry, rfl⟩ := List.mem_map.1 hd
      obtain ⟨hmem, hmissing⟩ := List.mem_filter.1 hentry
      have hnone : Keyed.find? entry.1 left = none := by
        simpa [Keyed.contains] using hmissing
      exact .onlyRight (Keyed.find?_of_mem hright hmem) hnone

/-- Descriptions before a change. -/
def drafted : List (String × String) :=
  [("A", "object\x7ba: string,  b: number\x7d"), ("B", "number"), ("C", "any")]

/-- Descriptions after a change. -/
def revised : List (String × String) :=
  [("A", "object\x7ba: string, b: boolean\x7d"), ("C", "any"), ("D", "string")]

/-- A changed, a dropped and a new name are told of, and the name that stayed is not. -/
theorem between_tells_exactly_revised : Keyed.Sorted drafted ∧ Keyed.Sorted revised ∧
    (between drafted revised).map name = ["A", "B"] ++ ["D"] ∧
    ∀ d ∈ between drafted revised, Tells drafted revised d := by
  have hdrafted : Keyed.Sorted drafted := by
    unfold Keyed.Sorted
    decide
  have hrevised : Keyed.Sorted revised := by
    unfold Keyed.Sorted
    decide
  obtain ⟨here, there, hnames, hhere, hthere, -, -, -, -, htells⟩ :=
    between_tells_exactly hdrafted hrevised
  refine ⟨hdrafted, hrevised, ?_, htells⟩
  rw [hnames, hhere, hthere]
  decide

end DescriptionDiff
end SchemaSets
