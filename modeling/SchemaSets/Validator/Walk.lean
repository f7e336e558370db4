import SchemaSets.Registry
import SchemaSets.Validator.Report

/-!
# Checking values

`walk` checks what a slot holds against a validator.  It goes down the value
and the validator together; a reference goes on with the entry that it names.

A reference may lead back to itself without going down the value, and then no
value would ever be consumed.  The walk therefore carries the *chain* of names
it followed since it last went down.  A name that is met again is reported as a
cycle; it is an issue like any other, and another branch of a union may still
fit.  Going down starts a new chain.

A union fits if one branch does; branches are tried in order and the issues of
those that fail are dropped.  A reference that cannot be followed is not an
issue but ends the whole walk, also inside a branch.

The walk comes to an end because each step makes the value smaller, or follows
a new name of the shelf within the same value, or goes to a smaller validator
with the same value and chain.  An attribute that is absent counts as smaller
than the object that lacks it.
-/

namespace SchemaSets

/-- Nothing if a check succeeded, else one issue here. -/
def checked (ok : Bool) (expected : Expectation) (slot : Slot) : List Issue :=
  if ok then [] else [Issue.here expected slot]

/-- Whether a slot holds one of some texts. -/
def Slot.isText (slot : Slot) (texts : List String) : Bool :=
  match slot with
  | some (.string s) => texts.contains s
  | _ => false

/-- Whether a slot holds a boolean. -/
def Slot.isBool : Slot → Bool
  | some (.bool _) => true
  | _ => false

/-- Whether a slot holds a string. -/
def Slot.isString : Slot → Bool
  | some (.string _) => true
  | _ => false

/-- Whether a slot holds a number; what is not a number is none. -/
def Slot.isNumber : Slot → Bool
  | some (.number x) => !x.isNaN
  | _ => false

/-- Whether a slot holds a callable. -/
def Slot.isFunction : Slot → Bool
  | some (.function _) => true
  | _ => false

/-- One issue for every member that is not among the fields. -/
def unlisted (fields : List (String × Validator)) (members : List (String × Value)) :
    List Issue :=
  (members.filter fun member => !Keyed.contains member.1 fields).map fun member =>
    ⟨[.field member.1], .noSuchAttribute, .unexpectedAttribute⟩

/-- A member that may be absent is no larger than all members together. -/
theorem Slot.size_find?_le (name : String) (members : List (String × Value)) :
    Slot.size (Keyed.find? name members) ≤ Value.sizeMembers members := by
  cases h : Keyed.find? name members with
  | none => simp [Slot.size]
  | some v => exact Value.size_le_sizeMembers h

/-- A step that does not enlarge the value and lowers the second measure is a
step down, whatever happens to the third. -/
theorem walk_descends {a a' b b' c c' : Nat} (ha : a ≤ a') (hb : b < b') :
    Prod.Lex (· < ·) (Prod.Lex (· < ·) (· < ·)) (a, b, c) (a', b', c') := by
  rcases Nat.lt_or_eq_of_le ha with h | rfl
  · exact Prod.Lex.left _ _ h
  · exact Prod.Lex.right _ (Prod.Lex.left _ _ hb)

mutual
/-- The issues of a slot under a validator, `chain` being the names followed
since the walk last went down. -/
def walk (shelf : Shelf) (chain : List String) (v : Validator) (slot : Slot) :
    Except ReferenceError (List Issue) :=
  match v with
  | .any => .ok []
  | .literal text => .ok (checked (slot.isText [text]) (.literal text) slot)
  | .boolean => .ok (checked slot.isBool .boolean slot)
  | .string => .ok (checked slot.isString .string slot)
  | .number => .ok (checked slot.isNumber .number slot)
  | .enumeration values => .ok (checked (slot.isText values) (.oneOf values) slot)
  | .function _ _ => .ok (checked slot.isFunction .function slot)
  | .object fields closed =>
    match slot with
    | some (.object members) => do
      let issues ← walkFields shelf fields members
      .ok (issues ++ if closed then unlisted fields members else [])
    | slot => .ok [Issue.here .object slot]
  | .array item =>
    match slot with
    | some (.array items) => walkItems shelf item 0 items
    | slot => .ok [Issue.here .array slot]
  | .record value =>
    match slot with
    | some (.object members) => walkMembers shelf value members
    | slot => .ok [Issue.here .record slot]
  | .union branches => do
    let fits ← walkBranches shelf chain branches slot
    .ok (checked fits (.oneBranchOf branches.length) slot)
  | .lazy _ child => walk shelf chain child slot
  | .reference target owner registry =>
    if _hnew : target ∈ chain then
      .ok [⟨[], .reference target, .referenceCycle⟩]
    else
      match _h : shelf.resolve registry target owner with
      | .error e => .error e
      | .ok entry => walk shelf (target :: chain) entry.validator slot
  | .optional inner =>
    match slot with
    | none => .ok []
    | some x => walk shelf chain inner (some x)
termination_by (slot.size, shelf.fresh chain, 2 * v.size)
decreasing_by
  · exact Prod.Lex.left _ _ (by simp [Slot.size, Value.size])
  · exact Prod.Lex.left _ _ (by simp [Slot.size, Value.size])
  · exact Prod.Lex.left _ _ (by simp [Slot.size, Value.size])
  · exact Prod.Lex.right _ (Prod.Lex.right _ (by simp only [Validator.size]; omega))
  · exact Prod.Lex.right _ (Prod.Lex.right _ (by simp only [Validator.size]; omega))
  · exact Prod.Lex.right _ (Prod.Lex.left _ _
      (Shelf.fresh_cons_lt (Shelf.mem_names_of_resolve _h) _hnew))
  · exact Prod.Lex.right _ (Prod.Lex.right _ (by simp only [Validator.size]; omega))
/-- Whether some branch has no issue; later branches are not tried. -/
def walkBranches (shelf : Shelf) (chain : List String) (branches : List Validator)
    (slot : Slot) : Except ReferenceError Bool :=
  match branches with
  | [] => .ok false
  | branch :: rest => do
    let issues ← walk shelf chain branch slot
    if issues.isEmpty then .ok true else walkBranches shelf chain rest slot
termination_by (slot.size, shelf.fresh chain, 2 * Validator.sizeList branches + 1)
decreasing_by
  · exact Prod.Lex.right _ (Prod.Lex.right _ (by simp only [Validator.sizeList]; omega))
  · exact Prod.Lex.right _ (Prod.Lex.right _ (by
      have := branch.size_pos
      simp only [Validator.sizeList]
      omega))
/-- The issues of the members at the listed fields, present or not. -/
def walkFields (shelf : Shelf) (fields : List (String × Validator))
    (members : List (String × Value)) : Except ReferenceError (List Issue) :=
  match fields with
  | [] => .ok []
  | (name, field) :: rest => do
    let issues ← walk shelf [] field (Keyed.find? name members)
    let more ← walkFields shelf rest members
    .ok (issues.map (Issue.under (.field name)) ++ more)
termination_by (Value.sizeMembers members, shelf.names.length + 1, Validator.sizeFields fields)
decreasing_by
  · exact walk_descends (Slot.size_find?_le _ _) (Nat.lt_succ_of_le (shelf.fresh_le _))
  · exact Prod.Lex.right _ (Prod.Lex.right _ (by
      have := field.size_pos
      simp only [Validator.sizeFields]
      omega))
/-- The issues of the items from a position on. -/
def walkItems (shelf : Shelf) (item : Validator) (position : Nat) (items : List Value) :
    Except ReferenceError (List Issue) :=
  match items with
  | [] => .ok []
  | x :: rest => do
    let issues ← walk shelf [] item (some x)
    let more ← walkItems shelf item (position + 1) rest
    .ok (issues.map (Issue.under (.index position)) ++ more)
termination_by (Value.sizeItems items, shelf.names.length + 1, 0)
decreasing_by
  · exact walk_descends (by simp only [Slot.size, Value.sizeItems]; omega)
      (Nat.lt_succ_of_le (shelf.fresh_le _))
  · exact Prod.Lex.left _ _ (by
      have := x.size_pos
      simp only [Value.sizeItems]
      omega)
/-- The issues of the values under every key. -/
def walkMembers (shelf : Shelf) (value : Validator) (members : List (String × Value)) :
    Except ReferenceError (List Issue) :=
  match members with
  | [] => .ok []
  | (key, x) :: rest => do
    let issues ← walk shelf [] value (some x)
    let more ← walkMembers shelf value rest
    .ok (issues.map (Issue.under (.key key)) ++ more)
termination_by (Value.sizeMembers members, shelf.names.length + 1, 0)
decreasing_by
  · exact walk_descends (by simp only [Slot.size, Value.sizeMembers]; omega)
      (Nat.lt_succ_of_le (shelf.fresh_le _))
  · exact Prod.Lex.left _ _ (by
      have := x.size_pos
      simp only [Value.sizeMembers]
      omega)
end

namespace Validator

/-- The report on a slot. -/
def validateSlot (shelf : Shelf) (v : Validator) (slot : Slot) :
    Except ReferenceError Report := do
  .ok ⟨← walk shelf [] v slot⟩

/-- The report on a value that is there. -/
def validate (shelf : Shelf) (v : Validator) (x : Value) : Except ReferenceError Report :=
  v.validateSlot shelf (some x)

/-- Whether a slot fits. -/
def acceptsSlot (shelf : Shelf) (v : Validator) (slot : Slot) : Except ReferenceError Bool := do
  .ok (← v.validateSlot shelf slot).isValid

end Validator
end SchemaSets
