import SchemaSets.Draft07.Rendering
import SchemaSets.Proofs.Steps.Searching

/-!
# Renderings step by step

Rendering as a machine.  It goes down a validator and keeps a stack of frames
for what is rendered around it.  References are written and not followed, but
each attribute is asked whether it may be absent, and the search for that runs
inside the rendering: its steps are steps of the machine.
-/

namespace SchemaSets.Rendering

/-- An object in the middle of being rendered: the fields left, and what was
gathered from the others. -/
structure Progress where
  rest : List (String × Validator)
  closed : Bool
  properties : List (String × Json)
  required : List String

/-- How a rendering goes on once a part is rendered. -/
inductive Frame
  | property (name : String) (field : Validator) (progress : Progress)
  | items
  | values
  | branches (rest : List Validator) (done : List Json)

/-- A state of a rendering: before a validator is rendered, while a field is
asked whether it may be absent, and with the members of a part. -/
inductive State
  | render (v : Validator) (stack : List Frame)
  | ask (name : String) (search : Searching.State) (progress : Progress) (stack : List Frame)
  | rendered (members : List (String × Json)) (stack : List Frame)

/-- The members of the schema of an object. -/
def objectMembers (closed : Bool) (properties : List (String × Json)) (required : List String) :
    List (String × Json) :=
  (if closed then [("additionalProperties", .bool false)] else []) ++
  [("properties", .object properties)] ++
  (match required with
    | [] => []
    | names => [("required", Json.strings names)]) ++
  [("type", .string "object")]

namespace State

/-- On to the next field, or to the end of an object. -/
def onFields (progress : Progress) (stack : List Frame) : State :=
  match progress.rest with
  | [] =>
    .rendered (objectMembers progress.closed progress.properties progress.required) stack
  | (name, field) :: rest =>
    .render field (.property name field { progress with rest := rest } :: stack)

/-- On to the next branch, or to the end of a union. -/
def onBranches (done : List Json) (stack : List Frame) : List Validator → State
  | [] => .rendered [("anyOf", .array done)] stack
  | branch :: rest => .render branch (.branches rest done :: stack)

/-- How an object goes on once it is known whether a field may be absent. -/
def answered (name : String) (progress : Progress) (stack : List Frame) (absent : Bool) : State :=
  onFields
    { progress with
      required := if absent then progress.required else progress.required ++ [name] } stack

/-- How a frame takes up a part. -/
def resume (members : List (String × Json)) (stack : List Frame) : Frame → State
  | .property name field progress =>
    .ask name (Searching.start field)
      { progress with properties := progress.properties ++ [(name, .object members)] } stack
  | .items => .rendered [("items", .object members), ("type", .string "array")] stack
  | .values =>
    .rendered [("additionalProperties", .object members), ("type", .string "object")] stack
  | .branches rest done => onBranches (done ++ [.object members]) stack rest

end State

/-- Rendering as a machine. -/
def machine (shelf : Shelf) (key : String) : Machine State Json where
  step
    | .render (.object fields closed) stack => .inl (.onFields ⟨fields, closed, [], []⟩ stack)
    | .render (.array item) stack => .inl (.render item (.items :: stack))
    | .render (.record value) stack => .inl (.render value (.values :: stack))
    | .render (.union branches) stack => .inl (.onBranches [] stack branches)
    | .render (.lazy _ child) stack => .inl (.render child stack)
    | .render (.optional inner) stack => .inl (.render inner stack)
    -- what is left has no parts to be rendered
    | .render v stack => .inl (.rendered (v.schemaMembers shelf key) stack)
    | .ask name search progress stack =>
      match (Searching.machine shelf).step search with
      | .inl search => .inl (.ask name search progress stack)
      | .inr absent => .inl (.answered name progress stack absent)
    | .rendered members [] => .inr (.object members)
    | .rendered members (frame :: stack) => .inl (.resume members stack frame)

/-- Where the rendering of a validator starts. -/
def start (v : Validator) : State := .render v []

variable {shelf : Shelf} {key : String}

/-- The search inside a rendering runs to its end. -/
private theorem reaches_answered (key : String) {search : Searching.State} {absent : Bool}
    (h : (Searching.machine shelf).Ends search absent) (name : String) (progress : Progress)
    (stack : List Frame) :
    (machine shelf key).Reaches (.ask name search progress stack)
      (.answered name progress stack absent) := by
  obtain ⟨n, hn⟩ := h
  induction n generalizing search with
  | zero => cases hn
  | succ n ih =>
      rw [Machine.run] at hn
      split at hn
      · next next hstep =>
          refine .head ?_ (ih hn)
          simp [Machine.Goes, machine, hstep]
      · next result hstep =>
          cases hn
          refine .single ?_
          simp [Machine.Goes, machine, hstep]

/-- One more field is required or not. -/
private theorem requiredFields_cons (name : String) (v : Validator)
    (rest : List (String × Validator)) (required : List String) :
    (if v.mayBeAbsent shelf then required else required ++ [name]) ++ requiredFields shelf rest =
      required ++ requiredFields shelf ((name, v) :: rest) := by
  cases habsent : v.mayBeAbsent shelf <;> simp [requiredFields, habsent]

mutual
/-- The machine renders what is to be rendered, in front of any stack. -/
theorem reaches_rendered (v : Validator) (stack : List Frame) :
    (machine shelf key).Reaches (.render v stack)
      (.rendered (v.schemaMembers shelf key) stack) := by
  cases v with
  | object fields closed =>
      have hfields := reaches_onFields fields closed [] [] stack
      exact .head rfl hfields
  | array item => exact .head rfl ((reaches_rendered item _).tail rfl)
  | record value => exact .head rfl ((reaches_rendered value _).tail rfl)
  | union branches =>
      have hbranches := reaches_onBranches branches [] stack
      exact .head rfl hbranches
  | lazy label child => exact .head rfl (reaches_rendered child stack)
  | optional inner => exact .head rfl (reaches_rendered inner stack)
  | _ => exact .single rfl
/-- The fields of an object are rendered one by one. -/
theorem reaches_onFields (fields : List (String × Validator)) (closed : Bool)
    (properties : List (String × Json)) (required : List String) (stack : List Frame) :
    (machine shelf key).Reaches (.onFields ⟨fields, closed, properties, required⟩ stack)
      (.rendered (objectMembers closed (properties ++ Validator.schemaFields shelf key fields)
        (required ++ requiredFields shelf fields)) stack) := by
  cases fields with
  | nil =>
      rw [Validator.schemaFields, requiredFields, List.append_nil, List.filter_nil, List.map_nil,
        List.append_nil]
      exact .refl
  | cons field rest =>
      obtain ⟨name, v⟩ := field
      have hfield := reaches_rendered v
        (.property name v ⟨rest, closed, properties, required⟩ :: stack)
      have hasked := reaches_answered key (Searching.ends_start shelf v) name
        ⟨rest, closed, properties ++ [(name, .object (v.schemaMembers shelf key))], required⟩ stack
      have hrest := reaches_onFields rest closed
        (properties ++ [(name, .object (v.schemaMembers shelf key))])
        (if v.mayBeAbsent shelf then required else required ++ [name]) stack
      rw [requiredFields_cons, List.append_assoc] at hrest
      exact hfield.trans (.head rfl (hasked.trans hrest))
/-- The branches of a union are rendered one by one. -/
theorem reaches_onBranches (branches : List Validator) (done : List Json) (stack : List Frame) :
    (machine shelf key).Reaches (.onBranches done stack branches)
      (.rendered [("anyOf", .array (done ++ Validator.schemaList shelf key branches))] stack) := by
  cases branches with
  | nil =>
      rw [Validator.schemaList, List.append_nil]
      exact .refl
  | cons branch rest =>
      have hbranch := reaches_rendered branch (.branches rest done :: stack)
      have hrest := reaches_onBranches rest
        (done ++ [.object (branch.schemaMembers shelf key)]) stack
      rw [List.append_assoc] at hrest
      exact hbranch.trans (.head rfl hrest)
end

/-- The rendering of a validator ends with its schema. -/
theorem ends_start (shelf : Shelf) (settings : ExportSettings) (v : Validator) :
    (machine shelf settings.definitionsKey).Ends (start v) (v.schema shelf settings) :=
  (reaches_rendered v []).ends (Machine.ends_of_step rfl)

end SchemaSets.Rendering
