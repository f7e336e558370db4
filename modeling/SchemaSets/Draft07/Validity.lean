import SchemaSets.Draft07.WellFormed

/-!
# Valid instances

Whether an instance is valid against a document.  An entry's document is its
rendered validator with definitions beside it, and the key of the definitions
and the names in them may be any texts, also keywords.  So all keywords count
whose values such a document can have: `type`, `const`, `enum` and `required`,
which look at the instance as a whole; `anyOf`, `not`, `if` and `dependencies`,
which ask other schemas about the same instance; `items`, `contains`,
`properties`, `patternProperties`, `additionalProperties` and `propertyNames`,
which ask schemas about what is inside.  A `$ref` hides every other keyword
beside it, and one that leads nowhere is never satisfied.  All other keywords
are passed over.

References may lead in a circle.  An instance is valid only if it is so after
finitely many steps, so a reference that is met again before the instance was
taken apart is not satisfied.  What is left to follow is a list of the
references that occur in the document; following one takes it off the list, and
going down the instance restores the list.
-/

namespace SchemaSets.Draft07

mutual
/-- The reference texts that occur in a document, at any place. -/
def references : Json → List String
  | .object members => referencesOfMembers members
  | .array items => referencesOfItems items
  | _ => []
/-- The reference texts in a list of documents. -/
def referencesOfItems : List Json → List String
  | [] => []
  | item :: rest => references item ++ referencesOfItems rest
/-- The reference texts in a list of members. -/
def referencesOfMembers : List (String × Json) → List String
  | [] => []
  | (key, .string s) :: rest =>
    if key = "$ref" then s :: referencesOfMembers rest else referencesOfMembers rest
  | (_, value) :: rest => references value ++ referencesOfMembers rest
end

/-- Whether a double is a whole number. -/
def isWhole (x : Float) : Bool := x == x.floor && !x.isInf

/-- Whether an instance has a primitive type. -/
def hasType (inst : Json) (name : String) : Bool :=
  match inst, name with
  | .null, "null" => true
  | .bool _, "boolean" => true
  | .number _, "number" => true
  | .number (.integer _), "integer" => true
  | .number (.double x), "integer" => isWhole x
  | .string _, "string" => true
  | .array _, "array" => true
  | .object _, "object" => true
  | _, _ => false

/-- Whether an instance has the type, or one of the types, of a schema. -/
def checkType (members : List (String × Json)) (inst : Json) : Bool :=
  match Keyed.find? "type" members with
  | some (.string name) => hasType inst name
  | some (.array names) => (names.filterMap Json.string?).any (hasType inst)
  | _ => true

/-- Whether an instance is the value that a schema asks for. -/
def checkConst (members : List (String × Json)) (inst : Json) : Bool :=
  match Keyed.find? "const" members with
  | some value => value.same inst
  | none => true

/-- Whether an instance is one of the values that a schema asks for. -/
def checkEnum (members : List (String × Json)) (inst : Json) : Bool :=
  match Keyed.find? "enum" members with
  | some (.array values) => values.any fun value => value.same inst
  | _ => true

/-- Whether an instance that is an object has the members that a schema asks
for. -/
def checkRequired (members : List (String × Json)) (inst : Json) : Bool :=
  match Keyed.find? "required" members, inst with
  | some (.array names), .object present =>
    (names.filterMap Json.string?).all fun name => Keyed.contains name present
  | _, _ => true

/-- The keywords that look at the instance as a whole. -/
def checkFlat (members : List (String × Json)) (inst : Json) : Bool :=
  checkType members inst && checkConst members inst && checkEnum members inst &&
    checkRequired members inst

/-- The members of an object whose names hold a pattern. -/
def membersMatching (pattern : String) (present : List (String × Json)) :
    List (String × Json) :=
  match Text.Pattern.read? pattern with
  | some pattern => present.filter fun member => pattern.occursIn member.1
  | none => []

/-- The members of an object that a schema lists neither by name nor by
pattern. -/
def unlistedMembers (members present : List (String × Json)) : List (String × Json) :=
  let names := match Keyed.find? "properties" members with
    | some (.object listed) => Keyed.keys listed
    | _ => []
  let patterns := match Keyed.find? "patternProperties" members with
    | some (.object listed) => (Keyed.keys listed).filterMap Text.Pattern.read?
    | _ => []
  present.filter fun member =>
    !names.contains member.1 && !patterns.any (·.occursIn member.1)

/-- A step down for the recursion below. -/
theorem check_descends {a a' b b' c c' : Nat} (ha : a ≤ a') (hb : b < b') :
    Prod.Lex (· < ·) (Prod.Lex (· < ·) (· < ·)) (a, b, c) (a', b', c') := by
  rcases Nat.lt_or_eq_of_le ha with h | rfl
  · exact Prod.Lex.left _ _ h
  · exact Prod.Lex.right _ (Prod.Lex.left _ _ hb)

/-- Leaving members out makes an object no larger. -/
theorem sizeMembers_filter_le (p : String × Json → Bool) (members : List (String × Json)) :
    Json.sizeMembers (members.filter p) ≤ Json.sizeMembers members := by
  induction members with
  | nil => simp
  | cons member rest ih =>
    obtain ⟨key, value⟩ := member
    by_cases h : p (key, value) <;> simp [h, Json.sizeMembers] <;> omega

/-- The members that hold a pattern are no larger than the object. -/
theorem sizeMembers_membersMatching_le (pattern : String) (present : List (String × Json)) :
    Json.sizeMembers (membersMatching pattern present) ≤ Json.sizeMembers present := by
  unfold membersMatching
  split
  · exact sizeMembers_filter_le _ _
  · simp [Json.sizeMembers]

/-- The unlisted members are no larger than the object. -/
theorem sizeMembers_unlistedMembers_le (members present : List (String × Json)) :
    Json.sizeMembers (unlistedMembers members present) ≤ Json.sizeMembers present :=
  sizeMembers_filter_le _ _

mutual
/-- Whether an instance is valid against a schema inside `root`.  `all` are the
references of the document and `left` those that may still be followed. -/
def check (root : Json) (all left : List String) (schema inst : Json) : Bool :=
  match schema with
  | .bool b => b
  | .object members =>
    match Keyed.find? "$ref" members with
    | some (.string text) =>
      if _hleft : text ∈ left then
        match resolve? root text with
        | some target => check root all (left.erase text) target inst
        | none => false
      else false
    | _ =>
      checkFlat members inst && checkBeside root all left members inst &&
        checkInside root all members inst
  | _ => false
termination_by (inst.size, left.length, 2 * schema.size)
decreasing_by
  · refine Prod.Lex.right _ (Prod.Lex.left _ _ ?_)
    have := List.length_pos_of_mem _hleft
    rw [List.length_erase_of_mem _hleft]
    omega
  · exact Prod.Lex.right _ (Prod.Lex.right _ (by simp only [Json.size]; omega))
  · rcases Nat.eq_zero_or_pos left.length with h | h
    · rw [h]
      exact Prod.Lex.right _ (Prod.Lex.right _ (by simp only [Json.size]; omega))
    · exact Prod.Lex.right _ (Prod.Lex.left _ _ h)
/-- The keywords that ask other schemas about the same instance. -/
def checkBeside (root : Json) (all left : List String) (members : List (String × Json))
    (inst : Json) : Bool :=
  (match _h : Keyed.find? "anyOf" members with
  | some (.array branches) => checkBranches root all left branches inst
  | _ => true) &&
  (match _h : Keyed.find? "not" members with
  | some schema => !check root all left schema inst
  | none => true) &&
  (match _h : Keyed.find? "if" members with
  | some condition =>
    if check root all left condition inst then
      match _h : Keyed.find? "then" members with
      | some schema => check root all left schema inst
      | none => true
    else
      match _h : Keyed.find? "else" members with
      | some schema => check root all left schema inst
      | none => true
  | none => true) &&
  (match _h : Keyed.find? "dependencies" members with
  | some (.object listed) => checkDependencies root all left listed inst
  | _ => true)
termination_by (inst.size, left.length, 2 * Json.sizeMembers members + 1)
decreasing_by
  all_goals
    have := Json.size_le_sizeMembers _h
    refine Prod.Lex.right _ (Prod.Lex.right _ ?_)
  · simp only [Json.size] at this
    omega
  · omega
  · omega
  · omega
  · omega
  · simp only [Json.size] at this
    omega
/-- Whether some schema of a list takes an instance. -/
def checkBranches (root : Json) (all left : List String) (branches : List Json)
    (inst : Json) : Bool :=
  match branches with
  | [] => false
  | branch :: rest =>
    check root all left branch inst || checkBranches root all left rest inst
termination_by (inst.size, left.length, 2 * Json.sizeItems branches + 1)
decreasing_by
  · exact Prod.Lex.right _ (Prod.Lex.right _ (by simp only [Json.sizeItems]; omega))
  · exact Prod.Lex.right _ (Prod.Lex.right _ (by
      have := branch.size_pos
      simp only [Json.sizeItems]
      omega))
/-- Whether an instance has what its members ask for: other members, or to be
valid against a schema. -/
def checkDependencies (root : Json) (all left : List String) (listed : List (String × Json))
    (inst : Json) : Bool :=
  match listed with
  | [] => true
  | (name, need) :: rest =>
    (if (inst.get? name).isNone then true
      else
        match need with
        | .array names =>
          (names.filterMap Json.string?).all fun name => (inst.get? name).isSome
        | schema => check root all left schema inst) &&
    checkDependencies root all left rest inst
termination_by (inst.size, left.length, 2 * Json.sizeMembers listed + 1)
decreasing_by
  · exact Prod.Lex.right _ (Prod.Lex.right _ (by simp only [Json.sizeMembers]; omega))
  · exact Prod.Lex.right _ (Prod.Lex.right _ (by
      have := need.size_pos
      simp only [Json.sizeMembers]
      omega))
/-- The keywords that ask schemas about what is inside an instance. -/
def checkInside (root : Json) (all : List String) (members : List (String × Json))
    (inst : Json) : Bool :=
  match inst with
  | .array items =>
    (match Keyed.find? "items" members with
    | some schema => checkItems root all schema items
    | none => true) &&
    (match Keyed.find? "contains" members with
    | some schema => checkContains root all schema items
    | none => true)
  | .object present =>
    (match Keyed.find? "properties" members with
    | some (.object listed) => checkListed root all listed present
    | _ => true) &&
    (match Keyed.find? "patternProperties" members with
    | some (.object listed) => checkMatching root all listed present
    | _ => true) &&
    (match Keyed.find? "additionalProperties" members with
    | some schema => checkMembers root all schema (unlistedMembers members present)
    | none => true) &&
    (match Keyed.find? "propertyNames" members with
    | some schema => checkNames root all schema present
    | none => true)
  | _ => true
termination_by (inst.size, 0, 1)
decreasing_by
  all_goals refine Prod.Lex.left _ _ ?_
  · simp [Json.size]
  · simp [Json.size]
  · simp [Json.size]
  · simp [Json.size]
  · have := sizeMembers_unlistedMembers_le members present
    simp only [Json.size]
    omega
  · simp [Json.size]
/-- Whether all items are valid against one schema. -/
def checkItems (root : Json) (all : List String) (schema : Json) (items : List Json) : Bool :=
  match items with
  | [] => true
  | item :: rest => check root all all schema item && checkItems root all schema rest
termination_by (Json.sizeItems items, all.length + 1, 0)
decreasing_by
  · exact check_descends (by simp only [Json.sizeItems]; omega) (Nat.lt_succ_self _)
  · exact Prod.Lex.left _ _ (by
      have := item.size_pos
      simp only [Json.sizeItems]
      omega)
/-- Whether some item is valid against a schema. -/
def checkContains (root : Json) (all : List String) (schema : Json) (items : List Json) : Bool :=
  match items with
  | [] => false
  | item :: rest => check root all all schema item || checkContains root all schema rest
termination_by (Json.sizeItems items, all.length + 1, 0)
decreasing_by
  · exact check_descends (by simp only [Json.sizeItems]; omega) (Nat.lt_succ_self _)
  · exact Prod.Lex.left _ _ (by
      have := item.size_pos
      simp only [Json.sizeItems]
      omega)
/-- Whether the listed members that are present are valid. -/
def checkListed (root : Json) (all : List String) (listed present : List (String × Json)) :
    Bool :=
  match listed with
  | [] => true
  | (name, schema) :: rest =>
    (match _h : Keyed.find? name present with
    | some value => check root all all schema value
    | none => true) && checkListed root all rest present
termination_by (Json.sizeMembers present, all.length + 1, listed.length)
decreasing_by
  · exact check_descends (Json.size_le_sizeMembers _h) (Nat.lt_succ_self _)
  · exact Prod.Lex.right _ (Prod.Lex.right _ (by simp))
/-- Whether the members that hold a listed pattern are valid. -/
def checkMatching (root : Json) (all : List String) (listed present : List (String × Json)) :
    Bool :=
  match listed with
  | [] => true
  | (pattern, schema) :: rest =>
    checkMembers root all schema (membersMatching pattern present) &&
      checkMatching root all rest present
termination_by (Json.sizeMembers present, all.length + 1, listed.length)
decreasing_by
  · rcases Nat.lt_or_eq_of_le (sizeMembers_membersMatching_le pattern present) with h | h
    · exact Prod.Lex.left _ _ h
    · rw [h]
      exact Prod.Lex.right _ (Prod.Lex.right _ (by simp))
  · exact Prod.Lex.right _ (Prod.Lex.right _ (by simp))
/-- Whether all members are valid against one schema. -/
def checkMembers (root : Json) (all : List String) (schema : Json)
    (members : List (String × Json)) : Bool :=
  match members with
  | [] => true
  | (_, value) :: rest => check root all all schema value && checkMembers root all schema rest
termination_by (Json.sizeMembers members, all.length + 1, 0)
decreasing_by
  · exact check_descends (by simp only [Json.sizeMembers]; omega) (Nat.lt_succ_self _)
  · exact Prod.Lex.left _ _ (by
      have := value.size_pos
      simp only [Json.sizeMembers]
      omega)
/-- Whether the names of all members are valid against one schema. -/
def checkNames (root : Json) (all : List String) (schema : Json)
    (members : List (String × Json)) : Bool :=
  match members with
  | [] => true
  | (name, _value) :: rest =>
    check root all all schema (.string name) && checkNames root all schema rest
termination_by (Json.sizeMembers members, all.length + 1, 0)
decreasing_by
  · refine check_descends ?_ (Nat.lt_succ_self _)
    have := _value.size_pos
    simp only [Json.size, Json.sizeMembers]
    omega
  · exact Prod.Lex.left _ _ (by
      have := _value.size_pos
      simp only [Json.sizeMembers]
      omega)
end

/-- Whether an instance is valid against a document. -/
def isValid (document inst : Json) : Bool :=
  let all := references document
  check document all all document inst

end SchemaSets.Draft07
