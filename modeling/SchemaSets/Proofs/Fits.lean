import SchemaSets.Validator.Walk

/-!
# What fits a validator

Within one compiled set a slot fits a validator if there is a reason for it:
a finite tree of facts in which a reference is justified by what it names.
`FitsBeyond` is the inductive relation of such reasons.  It carries a chain of
names, as the walk does, and a reason beyond a chain follows no name of the
chain, and none twice, before it goes down the value.

A reason that follows a name twice can be shortened.  Where the name is met
for the second time there stands a reason for the same entry and the same slot,
and it can take the place of the first (`FitsBeyond.cut`).  The chain is
therefore no restriction: `Fits`, with no chain to begin with, is closed under
following any reference (`fits_reference_iff`).

This one argument answers two questions about loops.  It is why the walk may
cut a chain without losing a reason, and why a search may leave a name marked
as seen when it gives up a branch.

## Main results

* `FitsBeyond.cut` — a name can be kept out of a reason, or its entry fits for
  a reason without it.
* `fits_reference_iff` — a slot fits a reference if it fits what it names.
-/

namespace SchemaSets

namespace Slot

variable {slot : Slot}

theorem isText_iff {texts : List String} :
    slot.isText texts = true ↔ ∃ s ∈ texts, slot = some (.string s) := by
  unfold isText
  split <;> simp_all

theorem isBool_iff : slot.isBool = true ↔ ∃ b, slot = some (.bool b) := by
  unfold isBool
  split <;> simp_all

theorem isString_iff : slot.isString = true ↔ ∃ s, slot = some (.string s) := by
  unfold isString
  split <;> simp_all

theorem isNumber_iff :
    slot.isNumber = true ↔ ∃ x, x.isNaN = false ∧ slot = some (.number x) := by
  unfold isNumber
  split <;> simp_all

theorem isFunction_iff : slot.isFunction = true ↔ ∃ f, slot = some (.function f) := by
  unfold isFunction
  split <;> simp_all

end Slot

namespace Validator

/-- A validator that looks at a value as a whole and at no other validator. -/
def IsLeaf : Validator → Prop
  | .any | .literal _ | .boolean | .string | .number | .enumeration _ | .function _ _ => True
  | _ => False

/-- Whether a slot holds what a leaf asks for. -/
def leafTakes : Validator → Slot → Bool
  | .any, _ => true
  | .literal text, slot => slot.isText [text]
  | .boolean, slot => slot.isBool
  | .string, slot => slot.isString
  | .number, slot => slot.isNumber
  | .enumeration values, slot => slot.isText values
  | .function _ _, slot => slot.isFunction
  | _, _ => false

end Validator

/-- No member is unlisted exactly if every member has the name of a field. -/
theorem unlisted_eq_nil_iff {fields : List (String × Validator)}
    {members : List (String × Value)} :
    unlisted fields members = [] ↔ ∀ member ∈ members, member.1 ∈ Keyed.keys fields := by
  rw [unlisted, List.map_eq_nil_iff, List.filter_eq_nil_iff]
  simp only [Bool.not_eq_true', Bool.not_eq_false, Keyed.contains_iff]

/-- A slot fits a validator for a reason that follows no name of the chain, and
no name twice, before it goes down the value. -/
inductive FitsBeyond (set : CompiledSet) : List String → Validator → Slot → Prop
  | leaf {chain : List String} {v : Validator} {slot : Slot} (takes : v.leafTakes slot = true) :
      FitsBeyond set chain v slot
  | object {chain : List String} {fields : List (String × Validator)} {closed : Bool}
      {members : List (String × Value)}
      (each : ∀ field ∈ fields, FitsBeyond set [] field.2 (Keyed.find? field.1 members))
      (listed : closed = true → unlisted fields members = []) :
      FitsBeyond set chain (.object fields closed) (some (.object members))
  | array {chain : List String} {item : Validator} {items : List Value}
      (each : ∀ x ∈ items, FitsBeyond set [] item (some x)) :
      FitsBeyond set chain (.array item) (some (.array items))
  | record {chain : List String} {value : Validator} {members : List (String × Value)}
      (each : ∀ member ∈ members, FitsBeyond set [] value (some member.2)) :
      FitsBeyond set chain (.record value) (some (.object members))
  | union {chain : List String} {slot : Slot} {branches : List Validator} {branch : Validator}
      (mem : branch ∈ branches) (fits : FitsBeyond set chain branch slot) :
      FitsBeyond set chain (.union branches) slot
  | lazy {chain : List String} {slot : Slot} {label : Option String} {child : Validator}
      (fits : FitsBeyond set chain child slot) : FitsBeyond set chain (.lazy label child) slot
  | reference {chain : List String} {slot : Slot} {target owner : String} {registry : Handle}
      {entry : Entry} (new : target ∉ chain) (found : set.get? target = some entry)
      (fits : FitsBeyond set (target :: chain) entry.validator slot) :
      FitsBeyond set chain (.reference target owner registry) slot
  | absent {chain : List String} {inner : Validator} : FitsBeyond set chain (.optional inner) none
  | present {chain : List String} {inner : Validator} {x : Value}
      (fits : FitsBeyond set chain inner (some x)) :
      FitsBeyond set chain (.optional inner) (some x)

namespace FitsBeyond

variable {set : CompiledSet} {chain : List String} {v : Validator} {slot : Slot}

/-- A reason beyond a chain is one beyond every part of it. -/
theorem mono (h : FitsBeyond set chain v slot) {fewer : List String}
    (hsub : fewer ⊆ chain) : FitsBeyond set fewer v slot := by
  induction h generalizing fewer with
  | leaf takes => exact .leaf takes
  | object each listed => exact .object each listed
  | array each => exact .array each
  | record each => exact .record each
  | union mem _ ih => exact .union mem (ih hsub)
  | lazy _ ih => exact .lazy (ih hsub)
  | reference new found _ ih =>
      have hnew := fun hmem => new (hsub hmem)
      exact .reference hnew found (ih (List.cons_subset_cons _ hsub))
  | absent => exact .absent
  | present _ ih => exact .present (ih hsub)

/-- Any name can be kept out of a reason, unless the reason holds a shorter one
for the entry of that name. -/
theorem cut (h : FitsBeyond set chain v slot) (name : String) :
    FitsBeyond set (name :: chain) v slot ∨
      ∃ entry, set.get? name = some entry ∧
        FitsBeyond set (name :: chain) entry.validator slot := by
  induction h with
  | leaf takes => exact .inl (.leaf takes)
  | object each listed => exact .inl (.object each listed)
  | array each => exact .inl (.array each)
  | record each => exact .inl (.record each)
  | union mem _ ih => exact ih.imp_left (.union mem)
  | lazy _ ih => exact ih.imp_left .lazy
  | @reference chain slot target owner registry entry new found fits ih =>
      by_cases hname : target = name
      · -- the name itself is followed here: what lies behind is the reason sought
        subst hname
        exact .inr ⟨entry, found, fits⟩
      · rcases ih with fits | ⟨other, hother, fits⟩
        · have hnew : target ∉ name :: chain := by simp [hname, new]
          have hsub := (List.Perm.swap name target chain).subset
          exact .inl (.reference hnew found (fits.mono hsub))
        · have hsub := List.cons_subset_cons name (List.subset_cons_self target chain)
          exact .inr ⟨other, hother, fits.mono hsub⟩
  | absent => exact .inl .absent
  | present _ ih => exact ih.imp_left .present

/-! ## The rules as equivalences -/

/-- What fits a leaf is what the leaf asks for. -/
theorem leaf_iff (hleaf : v.IsLeaf) : FitsBeyond set chain v slot ↔ v.leafTakes slot = true := by
  constructor
  · intro h
    cases h with
    | leaf takes => exact takes
    | _ => exact hleaf.elim
  · exact .leaf

/-- What fits an object is an object whose attributes, present or not, fit the
fields. -/
theorem object_iff {fields : List (String × Validator)} {closed : Bool} :
    FitsBeyond set chain (.object fields closed) slot ↔
      ∃ members, slot = some (.object members) ∧
        (∀ field ∈ fields, FitsBeyond set [] field.2 (Keyed.find? field.1 members)) ∧
        (closed = true → unlisted fields members = []) := by
  constructor
  · intro h
    cases h with
    | leaf takes => cases takes
    | object each listed => exact ⟨_, rfl, each, listed⟩
  · rintro ⟨members, rfl, each, listed⟩
    exact .object each listed

/-- What fits an array is a sequence whose items fit. -/
theorem array_iff {item : Validator} :
    FitsBeyond set chain (.array item) slot ↔
      ∃ items, slot = some (.array items) ∧ ∀ x ∈ items, FitsBeyond set [] item (some x) := by
  constructor
  · intro h
    cases h with
    | leaf takes => cases takes
    | array each => exact ⟨_, rfl, each⟩
  · rintro ⟨items, rfl, each⟩
    exact .array each

/-- What fits a record is an object whose values fit. -/
theorem record_iff {value : Validator} :
    FitsBeyond set chain (.record value) slot ↔
      ∃ members, slot = some (.object members) ∧
        ∀ member ∈ members, FitsBeyond set [] value (some member.2) := by
  constructor
  · intro h
    cases h with
    | leaf takes => cases takes
    | record each => exact ⟨_, rfl, each⟩
  · rintro ⟨members, rfl, each⟩
    exact .record each

/-- What fits a union fits one of its branches. -/
theorem union_iff {branches : List Validator} :
    FitsBeyond set chain (.union branches) slot ↔
      ∃ branch ∈ branches, FitsBeyond set chain branch slot := by
  constructor
  · intro h
    cases h with
    | leaf takes => cases takes
    | union mem fits => exact ⟨_, mem, fits⟩
  · rintro ⟨branch, mem, fits⟩
    exact .union mem fits

/-- What fits a lazy node fits its child. -/
theorem lazy_iff {label : Option String} {child : Validator} :
    FitsBeyond set chain (.lazy label child) slot ↔ FitsBeyond set chain child slot := by
  constructor
  · intro h
    cases h with
    | leaf takes => cases takes
    | lazy fits => exact fits
  · exact .lazy

/-- What fits a reference fits the entry of a name that is new to the chain. -/
theorem reference_iff {target owner : String} {registry : Handle} :
    FitsBeyond set chain (.reference target owner registry) slot ↔
      target ∉ chain ∧ ∃ entry, set.get? target = some entry ∧
        FitsBeyond set (target :: chain) entry.validator slot := by
  constructor
  · intro h
    cases h with
    | leaf takes => cases takes
    | reference new found fits => exact ⟨new, _, found, fits⟩
  · rintro ⟨new, entry, found, fits⟩
    exact .reference new found fits

/-- A value that is there fits an optional validator if it fits without the
mark. -/
theorem present_iff {inner : Validator} {x : Value} :
    FitsBeyond set chain (.optional inner) (some x) ↔ FitsBeyond set chain inner (some x) := by
  constructor
  · intro h
    cases h with
    | leaf takes => cases takes
    | present fits => exact fits
  · exact .present

end FitsBeyond

/-- A slot fits a validator. -/
def Fits (set : CompiledSet) (v : Validator) (slot : Slot) : Prop := FitsBeyond set [] v slot

/-- What fits a reference is what fits the entry it names. -/
theorem fits_reference_iff {set : CompiledSet} {target owner : String} {registry : Handle}
    {slot : Slot} :
    Fits set (.reference target owner registry) slot ↔
      ∃ entry, set.get? target = some entry ∧ Fits set entry.validator slot := by
  rw [Fits, FitsBeyond.reference_iff]
  constructor
  · rintro ⟨-, entry, found, fits⟩
    exact ⟨entry, found, fits.mono (List.nil_subset _)⟩
  · rintro ⟨entry, found, fits⟩
    refine ⟨List.not_mem_nil, entry, found, ?_⟩
    -- either way of the cut is a reason for this very entry
    rcases fits.cut target with fits | ⟨other, hother, fits⟩
    · exact fits
    · rw [found, Option.some.injEq] at hother
      exact hother ▸ fits

end SchemaSets
