import SchemaSets.Proofs.Alike
import SchemaSets.Proofs.Indirection

/-!
# What rejecting unknown attributes costs

A set can be compiled so that objects reject the attributes that they do not list, or
so that they ignore them.  The strict form differs from the lenient one in nothing but
the issues on such attributes.  Yet these decide which branch of a union fits first,
and with it which branches, references and lazy nodes are tried after that: the two
forms are not walked through the same places.

The lenient walk stops at a branch where the strict one stops, or before.  So where
the strict walk comes to its end, also among references that dangle, the lenient one
has done so earlier or at the same place, and with no issue if the strict one has none
(`walk_eases`).

Conversely a value that the lenient form accepts is only too large.  What the strict
form would take is cut out of it along the reason for which it was accepted
(`exists_pruned`): an object keeps the attributes that are listed there, a record
keeps them all, and a branch, a lazy node or a reference hands on what is cut out
below.

## Main results

* `walk_eases` — where the strict walk ends, the lenient one does, with no more to say.
* `reject_only_tightens` — both directions, for the entries of a set.
-/

namespace SchemaSets

open Relation

/-! ## Pruned values -/

/-- A value with one attribute less, in the value itself or somewhere inside. -/
inductive Value.PrunedOnce : Value → Value → Prop
  | attribute {before after : List (String × Value)} {member : String × Value} :
      PrunedOnce (.object (before ++ member :: after)) (.object (before ++ after))
  | inObject {before after : List (String × Value)} {key : String} {x y : Value}
      (cut : PrunedOnce x y) :
      PrunedOnce (.object (before ++ (key, x) :: after)) (.object (before ++ (key, y) :: after))
  | inArray {before after : List Value} {x y : Value} (cut : PrunedOnce x y) :
      PrunedOnce (.array (before ++ x :: after)) (.array (before ++ y :: after))

/-- A value with any number of attributes less. -/
def Value.Pruned : Value → Value → Prop := ReflTransGen Value.PrunedOnce

namespace Value.Pruned

/-- Pruning an item prunes the sequence. -/
theorem inArray {x y : Value} (h : x.Pruned y) (before after : List Value) :
    (Value.array (before ++ x :: after)).Pruned (.array (before ++ y :: after)) := by
  induction h with
  | refl => exact .refl
  | tail _ hcut ih => exact .tail ih (.inArray hcut)

/-- Pruning what stands under a key prunes the object. -/
theorem inObject {x y : Value} (h : x.Pruned y) (key : String)
    (before after : List (String × Value)) :
    (Value.object (before ++ (key, x) :: after)).Pruned (.object (before ++ (key, y) :: after)) := by
  induction h with
  | refl => exact .refl
  | tail _ hcut ih => exact .tail ih (.inObject hcut)

/-- A sequence is pruned by pruning its items. -/
theorem array {items fewer : List Value} (h : List.Forall₂ Pruned items fewer) :
    (Value.array items).Pruned (.array fewer) := by
  -- what stands before the items is pruned already
  have hbefore : ∀ before : List Value,
      (Value.array (before ++ items)).Pruned (.array (before ++ fewer)) := by
    induction h with
    | nil => exact fun before => .refl
    | @cons x y items fewer hfirst _ ih =>
        intro before
        have hrest := ih (before ++ [y])
        rw [List.append_assoc, List.append_assoc] at hrest
        exact (inArray hfirst before items).trans hrest
  exact hbefore []

/-- An object is pruned by leaving out members and pruning others. -/
theorem object {members fewer : List (String × Value)}
    (h : List.SublistForall₂ (fun b a => b.1 = a.1 ∧ a.2.Pruned b.2) fewer members) :
    (Value.object members).Pruned (.object fewer) := by
  have hbefore : ∀ before : List (String × Value),
      (Value.object (before ++ members)).Pruned (.object (before ++ fewer)) := by
    induction h with
    | @nil members =>
        intro before
        induction members with
        | nil => exact .refl
        | cons member members ih => exact .head .attribute ih
    | @cons b a fewer members hfirst _ ih =>
        intro before
        obtain ⟨key, y⟩ := b
        obtain ⟨same, x⟩ := a
        obtain ⟨rfl, hpruned⟩ := hfirst
        have hrest := ih (before ++ [(key, y)])
        rw [List.append_assoc, List.append_assoc] at hrest
        exact (inObject hpruned key before members).trans hrest
    | cons_right _ ih =>
        intro before
        exact .head .attribute (ih before)
  exact hbefore []

end Value.Pruned

/-- A slot whose value, if there is one, is pruned. -/
def Slot.Pruned : Slot → Slot → Prop := Option.Rel Value.Pruned

theorem Slot.Pruned.refl : (slot : Slot) → slot.Pruned slot
  | none => .none
  | some _ => .some .refl

/-- Pruning does not take the value itself away. -/
theorem Slot.Pruned.exists_of_some {x : Value} {slot : Slot} (h : Slot.Pruned (some x) slot) :
    ∃ y, slot = some y ∧ x.Pruned y := by
  cases h with
  | some hpruned => exact ⟨_, rfl, hpruned⟩

/-! ## From the strict walk to the lenient one -/

section Eases

variable {shelf other : Shelf} {chain : List String}

/-- Where one walk comes to its end so does another, and without issues if the first has
none. -/
def Eases (strict lenient : Except ReferenceError (List Issue)) : Prop :=
  ∀ issues, strict = .ok issues → ∃ fewer, lenient = .ok fewer ∧ (issues = [] → fewer = [])

theorem Eases.refl (walked : Except ReferenceError (List Issue)) : Eases walked walked :=
  fun issues h => ⟨issues, h, id⟩

/-- A part with the rest is eased by easing both. -/
theorem Eases.gather {first easier rest easiest : Except ReferenceError (List Issue)}
    (hfirst : Eases first easier) (hrest : Eases rest easiest) (place : Issue → Issue) :
    Eases (do
      let found ← first
      let more ← rest
      .ok (found.map place ++ more)) (do
      let found ← easier
      let more ← easiest
      .ok (found.map place ++ more)) := by
  intro issues h
  obtain ⟨found, more, hfound, hmore, rfl⟩ := gather_eq_ok_iff.1 h
  obtain ⟨fewer, hfewer, hnone⟩ := hfirst found hfound
  obtain ⟨least, hleast, hempty⟩ := hrest more hmore
  refine ⟨_, gather_eq_ok_iff.2 ⟨fewer, least, hfewer, hleast, rfl⟩, ?_⟩
  intro hissues
  rw [List.append_eq_nil_iff, List.map_eq_nil_iff] at hissues ⊢
  exact ⟨hnone hissues.1, hempty hissues.2⟩

/-- Parts at the same places are eased one by one. -/
theorem walkParts_eases {parts changed : List Part}
    (h : List.Forall₂ (fun part counterpart => counterpart.segment = part.segment ∧
      Eases (walk shelf [] part.validator part.slot)
        (walk other [] counterpart.validator counterpart.slot)) parts changed) :
    Eases (walkParts shelf parts) (walkParts other changed) := by
  induction h with
  | nil => exact .refl _
  | cons hfirst _ ih =>
      rw [walkParts, walkParts, hfirst.1]
      exact hfirst.2.gather ih _

/-- A node whose counterpart leaves nothing astray is eased by easing its parts. -/
theorem walk_eases_of_paired {R : Validator → Validator → Prop} {v w : Validator} {slot : Slot}
    (hpaired : v.Paired R (fun _ shut => shut = false) w)
    (hparts : ∀ part ∈ v.parts slot, ∀ counterpart, R part.validator counterpart →
      Eases (walk shelf [] part.validator part.slot) (walk other [] counterpart part.slot)) :
    Eases (walk shelf chain v slot) (walk other chain w slot) := by
  have hall : Eases (walkParts shelf (v.parts slot)) (walkParts other (w.parts slot)) :=
    walkParts_eases (hpaired.walk_parts hparts)
  have hnone : w.strays slot = [] := by
    refine List.eq_nil_iff_forall_not_mem.2 fun issue hissue => ?_
    obtain ⟨fields, members, rfl, -⟩ := Validator.mem_strays_iff.1 hissue
    cases hpaired with
    | leaf hleaf => exact hleaf
    | object _ hopen => cases hopen
  rcases Validator.any_or_asks hpaired.settled with rfl | ⟨expected, hasks⟩
  · cases hpaired
    rw [walk_any, walk_any]
    exact .refl _
  · have hasksToo := hpaired.asks?_eq.trans hasks
    by_cases hadmits : v.admits slot = true
    · intro issues hissues
      obtain ⟨found, hfound, rfl⟩ := (walk_eq_ok_iff_of_admits hasks hadmits).1 hissues
      obtain ⟨fewer, hfewer, hempty⟩ := hall found hfound
      refine ⟨fewer, ?_, fun hissues => hempty (List.append_eq_nil_iff.1 hissues).1⟩
      rw [walk_eq_ok_iff_of_admits hasksToo ((hpaired.admits_eq slot).trans hadmits), hnone]
      exact ⟨fewer, hfewer, List.append_nil fewer⟩
    · rw [walk_of_asks hasks, walk_of_asks hasksToo, hpaired.admits_eq, if_neg hadmits,
        if_neg hadmits]
      exact .refl _

/-- Branches that are eased one by one come to an end where they did or before, and one
fits if one did. -/
theorem walkBranches_eases {slot : Slot} {branches changed : List Validator}
    (h : List.Forall₂ (fun branch counterpart =>
      Eases (walk shelf chain branch slot) (walk other chain counterpart slot)) branches changed)
    {fits : Bool} (hfits : walkBranches shelf chain branches slot = .ok fits) :
    ∃ easier, walkBranches other chain changed slot = .ok easier ∧
      (fits = true → easier = true) := by
  induction h with
  | nil =>
      rw [walkBranches] at hfits ⊢
      exact ⟨fits, hfits, id⟩
  | @cons branch counterpart branches changed hfirst _ ih =>
      rw [walkBranches, bind_eq_ok_iff] at hfits
      obtain ⟨issues, hissues, hrest⟩ := hfits
      obtain ⟨fewer, hfewer, hnone⟩ := hfirst issues hissues
      have hsearch : walkBranches other chain (counterpart :: changed) slot =
          if fewer.isEmpty then .ok true else walkBranches other chain changed slot := by
        rw [walkBranches, hfewer]
        rfl
      rw [hsearch]
      by_cases hempty : fewer = []
      · rw [if_pos (by simpa using hempty)]
        exact ⟨true, rfl, fun _ => rfl⟩
      · -- the branch did not fit before either, so the search went on
        have hsome : issues ≠ [] := mt hnone hempty
        rw [if_neg (by simpa using hsome)] at hrest
        rw [if_neg (by simpa using hempty)]
        exact ih hrest

end Eases

/-- Where an element compiled strictly is done with its slot it is so compiled leniently, with
the same parts, in which objects are open. -/
theorem Element.paired_policy {owner : String} {registry : Handle} {e : Element}
    (hsettled : ¬(e.compile .reject owner registry).PassesOn) (through : Handle) :
    (e.compile .reject owner registry).Paired
      (fun v w => ∃ below : Element, below.compile .reject owner registry = v ∧
        below.compile .ignore owner through = w)
      (fun _ shut => shut = false) (e.compile .ignore owner through) := by
  have hmark := isOptional_eq_false_of_settled hsettled
  cases e with
  | literal => cases hmark; exact .leaf trivial
  | simple kind => cases hmark; cases kind <;> exact .leaf trivial
  | enumeration =>
      cases hmark
      rw [compile, compile, wrap_false]
      split <;> exact .leaf trivial
  | object attributes =>
      cases hmark
      rw [compile, compile, wrap_false, wrap_false, compileAttributes_eq_map,
        compileAttributes_eq_map]
      refine .object (List.forall₂_map_left_iff.2 (List.forall₂_map_right_iff.2 ?_)) rfl
      exact List.forall₂_same.2 fun a _ => ⟨rfl, a.2, rfl, rfl⟩
  | array item => cases hmark; exact .array ⟨item, rfl, rfl⟩
  | record value => cases hmark; exact .record ⟨value, rfl, rfl⟩
  | function args returns => cases hmark; cases returns <;> exact .function
  | union | lazy | reference => cases hmark; exact absurd trivial hsettled

section Compiled

variable {set : SchemaSet} {shelf other : Shelf} {registry through : Handle}

/-- Where the strict walk of an element comes to its end so does the lenient one, and
with no issue if the strict one has none.  References may dangle. -/
theorem walk_eases (hstrict : Stands shelf registry (set.compile ⟨.reject⟩ registry))
    (hlenient : Stands other through (set.compile ⟨.ignore⟩ through))
    (e : Element) (owner : String) (chain : List String) (slot : Slot) :
    Eases (walk shelf chain (e.compile .reject owner registry) slot)
      (walk other chain (e.compile .ignore owner through) slot) := by
  generalize hcompile : e.compile .reject owner registry = v
  induction chain, v, slot using chain_induction shelf generalizing e owner with
  | settled chain v slot hsettled ih =>
      subst hcompile
      refine walk_eases_of_paired (Element.paired_policy hsettled through) ?_
      rintro part hpart _ ⟨below, hbelow, rfl⟩
      exact ih part hpart below owner hbelow
  | union chain branches slot ih =>
      obtain ⟨es, rfl, rfl⟩ := Element.origin_of_compile_eq hcompile
      have hbranches : List.Forall₂ (fun branch counterpart =>
          Eases (walk shelf chain branch slot) (walk other chain counterpart slot))
          (Element.compileList .reject owner registry es)
          (Element.compileList .ignore owner through es) := by
        rw [Element.compileList_eq_map, Element.compileList_eq_map, List.forall₂_map_left_iff,
          List.forall₂_map_right_iff, List.forall₂_same]
        intro branch hbranch
        exact ih _ (Element.mem_compileList.2 ⟨branch, hbranch, rfl⟩) branch owner rfl
      intro issues hissues
      rw [walk, bind_eq_ok_iff] at hissues
      obtain ⟨fits, hfits, hissues⟩ := hissues
      obtain ⟨easier, heasier, hfit⟩ := walkBranches_eases hbranches hfits
      have hends : walk other chain ((Element.union es false).compile .ignore owner through) slot =
          .ok (checked easier (.oneBranchOf (Element.compileList .ignore owner through es).length)
            slot) := by
        rw [Element.compile, Element.wrap_false, walk, heasier]
        rfl
      refine ⟨_, hends, fun hempty => ?_⟩
      cases hissues
      rw [checked_eq_nil_iff] at hempty ⊢
      exact hfit hempty
  | lazy chain label child slot ih =>
      obtain ⟨inner, rfl, -, rfl⟩ := Element.origin_of_compile_eq hcompile
      rw [Element.compile, Element.wrap_false, walk, walk]
      exact ih inner owner rfl
  | cycle chain target place registry slot hmet =>
      obtain ⟨rfl, rfl, rfl⟩ := Element.origin_of_compile_eq hcompile
      rw [Element.compile, Element.wrap_false, walk_cycle hmet, walk_cycle hmet]
      exact .refl _
  | broken chain target place registry slot cause hnew hbroken =>
      intro issues hissues
      rw [walk_broken hnew hbroken] at hissues
      cases hissues
  | follow chain target place registry slot entry hnew hfollow ih =>
      obtain ⟨rfl, rfl, rfl⟩ := Element.origin_of_compile_eq hcompile
      obtain ⟨source, hsource, rfl⟩ :=
        SchemaSet.exists_of_get?_compile (hstrict.resolve_eq_ok_iff.1 hfollow)
      have hother : other.resolve through target place = .ok (Entry.of target _) :=
        hlenient.resolve_eq_ok_iff.2 (SchemaSet.get?_compile_of_eq hsource)
      rw [Element.compile, Element.wrap_false, walk_follow hnew hfollow, walk_follow hnew hother]
      exact ih source target rfl
  | absent chain inner =>
      obtain ⟨hmark, -⟩ := Element.origin_of_compile_eq hcompile
      rw [Element.compile_eq_wrap, hmark, Element.wrap_true, walk, walk]
      exact .refl _
  | present chain inner x ih =>
      obtain ⟨hmark, rfl⟩ := Element.origin_of_compile_eq hcompile
      rw [Element.compile_eq_wrap .ignore, hmark, Element.wrap_true, walk, walk]
      exact ih (e.withOptional false) owner rfl

end Compiled

/-! ## From a lenient description to a strict one -/

/-- What each attribute takes of an object with fewer members, one object takes from all
of them that has no other members. -/
theorem exists_pruned_members {members : List (String × Value)}
    {attributes : List (String × Element)} (hsorted : Keyed.Sorted attributes)
    {Takes : Element → Slot → Prop}
    (h : ∀ a ∈ attributes, ∃ slot,
      Slot.Pruned (Keyed.find? a.1 members) slot ∧ Takes a.2 slot) :
    ∃ fewer, List.SublistForall₂ (fun b a => b.1 = a.1 ∧ a.2.Pruned b.2) fewer members ∧
      (∀ a ∈ attributes, Takes a.2 (Keyed.find? a.1 fewer)) ∧
      ∀ member ∈ fewer, ∃ a ∈ attributes, a.1 = member.1 := by
  induction members generalizing attributes with
  | nil =>
      refine ⟨[], .nil, fun a ha => ?_, fun member hmember => nomatch hmember⟩
      obtain ⟨slot, hpruned, htakes⟩ := h a ha
      cases hpruned
      exact htakes
  | cons member rest ih =>
      obtain ⟨key, x⟩ := member
      by_cases hlisted : ∃ a ∈ attributes, a.1 = key
      · obtain ⟨a, ha, rfl⟩ := hlisted
        obtain ⟨slot, hpruned, htakes⟩ := h a ha
        rw [Keyed.find?, if_pos rfl] at hpruned
        obtain ⟨y, rfl, hvalue⟩ := hpruned.exists_of_some
        -- the first member of a name is kept, and what follows under that name is left out
        have hothers : ∀ b ∈ Keyed.erase a.1 attributes, ∃ slot,
            Slot.Pruned (Keyed.find? b.1 rest) slot ∧ Takes b.2 slot := by
          intro b hb
          obtain ⟨hmem, hne⟩ := List.mem_filter.1 hb
          have hother : a.1 ≠ b.1 := fun heq => of_decide_eq_true hne heq.symm
          have hrest := h b hmem
          rwa [Keyed.find?, if_neg hother] at hrest
        obtain ⟨fewer, hfewer, heach, honly⟩ := ih (hsorted.filter _) hothers
        refine ⟨(a.1, y) :: fewer, .cons ⟨rfl, hvalue⟩ hfewer, fun b hb => ?_, ?_⟩
        · by_cases hname : a.1 = b.1
          · have hsame := Keyed.find?_of_mem hsorted hb
            rw [← hname, Keyed.find?_of_mem hsorted ha, Option.some.injEq] at hsame
            rw [Keyed.find?, if_pos hname, ← hsame]
            exact htakes
          · rw [Keyed.find?, if_neg hname]
            exact heach b (List.mem_filter.2 ⟨hb, decide_eq_true (Ne.symm hname)⟩)
        · rw [List.forall_mem_cons]
          refine ⟨⟨a, ha, rfl⟩, fun member hmember => ?_⟩
          obtain ⟨b, hb, hname⟩ := honly member hmember
          exact ⟨b, (List.mem_filter.1 hb).1, hname⟩
      · -- nothing asks for this member
        have hothers : ∀ a ∈ attributes, ∃ slot,
            Slot.Pruned (Keyed.find? a.1 rest) slot ∧ Takes a.2 slot := by
          intro a ha
          have hother : key ≠ a.1 := fun heq => hlisted ⟨a, ha, heq.symm⟩
          have hrest := h a ha
          rwa [Keyed.find?, if_neg hother] at hrest
        obtain ⟨fewer, hfewer, hkept⟩ := ih hsorted hothers
        exact ⟨fewer, .cons_right hfewer, hkept⟩

/-- From what an element describes leniently, something can be left out so that the
element describes it strictly. -/
theorem exists_pruned {set : SchemaSet} (hordered : set.Ordered) {e : Element} {slot : Slot}
    (he : e.Everywhere Element.ListsInOrder) (h : set.Describes .ignore e slot) :
    ∃ fewer, slot.Pruned fewer ∧ set.Describes .reject e fewer := by
  induction h with
  | absent marked => exact ⟨none, .refl _, .absent marked⟩
  | any => exact ⟨_, .refl _, .any⟩
  | fewChoices few => exact ⟨_, .refl _, .fewChoices few⟩
  | literal => exact ⟨_, .refl _, .literal⟩
  | boolean => exact ⟨_, .refl _, .boolean⟩
  | string => exact ⟨_, .refl _, .string⟩
  | number isNumber => exact ⟨_, .refl _, .number isNumber⟩
  | choice mem => exact ⟨_, .refl _, .choice mem⟩
  | function => exact ⟨_, .refl _, .function⟩
  | object _ _ ih =>
      obtain ⟨hsorted, hinside⟩ := Element.everywhere_object_iff.1 he
      obtain ⟨fewer, hfewer, heach, honly⟩ :=
        exists_pruned_members hsorted fun a ha => ih a ha (hinside a ha)
      exact ⟨_, .some (.object hfewer), .object heach fun _ => honly⟩
  | @array item o items _ ih =>
      have hitems : ∀ x ∈ items, ∃ y, x.Pruned y ∧ set.Describes .reject item (some y) := by
        intro x hx
        obtain ⟨slot, hpruned, hdescribes⟩ := ih x hx (Element.everywhere_array_iff.1 he).2
        obtain ⟨y, rfl, hvalue⟩ := hpruned.exists_of_some
        exact ⟨y, hvalue, hdescribes⟩
      obtain ⟨fewer, hfewer⟩ := Keyed.exists_forall₂ hitems
      refine ⟨_, .some (.array (hfewer.imp fun _ _ => And.left)), .array fun y hy => ?_⟩
      obtain ⟨x, -, -, hdescribes⟩ := Keyed.exists_of_mem_right hfewer hy
      exact hdescribes
  | @record value o members _ ih =>
      have hmembers : ∀ member ∈ members, ∃ counterpart : String × Value,
          (counterpart.1 = member.1 ∧ member.2.Pruned counterpart.2) ∧
            set.Describes .reject value (some counterpart.2) := by
        intro member hmember
        obtain ⟨slot, hpruned, hdescribes⟩ :=
          ih member hmember (Element.everywhere_record_iff.1 he).2
        obtain ⟨y, rfl, hvalue⟩ := hpruned.exists_of_some
        exact ⟨(member.1, y), ⟨rfl, hvalue⟩, hdescribes⟩
      obtain ⟨fewer, hfewer⟩ := Keyed.exists_forall₂ hmembers
      have hall : List.SublistForall₂ (fun b a => b.1 = a.1 ∧ a.2.Pruned b.2) fewer members :=
        List.sublistForall₂_iff.2 ⟨members, (hfewer.imp fun _ _ => And.left).flip, .refl _⟩
      refine ⟨_, .some (.object hall), .record fun member hmember => ?_⟩
      obtain ⟨x, -, -, hdescribes⟩ := Keyed.exists_of_mem_right hfewer hmember
      exact hdescribes
  | @union _ _ branch _ mem _ ih =>
      obtain ⟨fewer, hpruned, hdescribes⟩ :=
        ih ((Element.everywhere_union_iff.1 he).2 branch mem)
      exact ⟨fewer, hpruned, .union mem hdescribes⟩
  | lazy _ ih =>
      obtain ⟨fewer, hpruned, hdescribes⟩ := ih (Element.everywhere_lazy_iff.1 he).2
      exact ⟨fewer, hpruned, .lazy hdescribes⟩
  | reference found _ ih =>
      obtain ⟨fewer, hpruned, hdescribes⟩ := ih (hordered.attributes _ (Keyed.mem_of_find? found))
      exact ⟨fewer, hpruned, .reference found hdescribes⟩

/-- Rejecting unknown attributes only tightens, and only by these.  Whatever references
dangle, where the strict form of a set reports on a slot the lenient form does too, and
finds it valid if the strict form did.  And where none dangles, every value that an entry
accepts in the lenient form becomes one that it accepts in the strict form by leaving out
attributes of objects inside. -/
theorem reject_only_tightens {set : SchemaSet} {shelf other : Shelf} {registry through : Handle}
    (hstrict : shelf.set? registry = some (set.compile ⟨.reject⟩ registry))
    (hlenient : other.set? through = some (set.compile ⟨.ignore⟩ through)) (name : String) :
    (∀ slot report, (set.compile ⟨.reject⟩ registry).check shelf name slot = .ok report →
      ∃ easier, (set.compile ⟨.ignore⟩ through).check other name slot = .ok easier ∧
        (report.isValid = true → easier.isValid = true)) ∧
    (set.Ordered → set.DanglingFree →
      ∀ x, (set.compile ⟨.ignore⟩ through).verdict? other name (some x) = some true →
        ∃ y, x.Pruned y ∧
          (set.compile ⟨.reject⟩ registry).verdict? shelf name (some y) = some true) := by
  constructor
  · intro slot report hreport
    cases hget : set.get? name with
    | none =>
        have hnone : (set.compile ⟨.reject⟩ registry).get? name = none := by
          rw [SchemaSet.get?_compile, hget, Option.map_none]
        rw [CompiledSet.check, CompiledSet.entry, hnone] at hreport
        cases hreport
    | some e =>
        have hentry : (set.compile ⟨.reject⟩ registry).get? name = some (Entry.of name _) :=
          SchemaSet.get?_compile_of_eq hget
        have hcounterpart : (set.compile ⟨.ignore⟩ through).get? name = some (Entry.of name _) :=
          SchemaSet.get?_compile_of_eq hget
        rw [check_eq_ok_iff hentry, validateSlot_eq_ok_iff] at hreport
        obtain ⟨fewer, hfewer, hnone⟩ := walk_eases (Stands.of_compile hstrict)
          (Stands.of_compile hlenient) e name [] slot report.issues hreport
        refine ⟨⟨fewer⟩, ?_, ?_⟩
        · rw [check_eq_ok_iff hcounterpart, validateSlot_eq_ok_iff]
          exact hfewer
        · intro hvalid
          rw [Report.isValid, List.isEmpty_iff] at hvalid ⊢
          exact hnone hvalid
  · intro hordered hfree x haccepts
    obtain ⟨e, he, hdescribes⟩ := exists_of_verdict?_eq_true hlenient haccepts
    obtain ⟨slot, hpruned, hstrictly⟩ :=
      exists_pruned hordered (hordered.attributes _ (Keyed.mem_of_find? he)) hdescribes
    obtain ⟨y, rfl, hvalue⟩ := hpruned.exists_of_some
    exact ⟨y, hvalue, verdict?_eq_true hfree hstrict he hstrictly⟩

/-- A box has a lid, or is a stack of boxes. -/
def boxes : SchemaSet where
  elements := [("box", .union [.object [("lid", .simple .string false)] false,
    .array (.reference "box" false) false] false)]

/-- A stack of one box, which has a lid and more. -/
def stacked (more : List (String × Value)) : Value :=
  .array [.object (("lid", .string "oak") :: more)]

/-- A stack of mouldy boxes is none if nothing unknown is allowed, but one can be cut out
of it. -/
theorem reject_only_tightens_boxes :
    let strict := boxes.compile ⟨.reject⟩ (.ofSet 0)
    let lenient := boxes.compile ⟨.ignore⟩ (.ofSet 1)
    let shelf := (({} : Shelf).put 0 strict).put 1 lenient
    strict.verdict? shelf "box" (some (stacked [("mould", .null)])) = some false ∧
    (∃ report, strict.check shelf "box" (some (stacked [])) = .ok report ∧
      ∃ easier, lenient.check shelf "box" (some (stacked [])) = .ok easier ∧
        (report.isValid = true → easier.isValid = true)) ∧
    lenient.verdict? shelf "box" (some (stacked [("mould", .null)])) = some true ∧
    ∃ y, (stacked [("mould", .null)]).Pruned y ∧
      strict.verdict? shelf "box" (some y) = some true := by
  intro strict lenient shelf
  have hstrict : shelf.set? (.ofSet 0) = some (boxes.compile ⟨.reject⟩ (.ofSet 0)) := rfl
  have hlenient : shelf.set? (.ofSet 1) = some (boxes.compile ⟨.ignore⟩ (.ofSet 1)) := rfl
  have hreport : strict.check shelf "box" (some (stacked [])) = .ok ⟨[]⟩ := by cbv
  have haccepts : lenient.verdict? shelf "box" (some (stacked [("mould", .null)])) = some true := by
    cbv
  obtain ⟨hease, hprune⟩ := reject_only_tightens hstrict hlenient "box"
  refine ⟨by cbv, ⟨_, hreport, hease _ _ hreport⟩, haccepts, ?_⟩
  exact hprune (by decide) (by decide) _ haccepts

end SchemaSets
