import SchemaSets.Proofs.Steps.Machine
import SchemaSets.Proofs.Walk

/-!
# Walks step by step

The walk as a machine.  A state holds what is looked at and a stack of frames,
each of which says how to go on once the issues of a part are known.  A
reference takes two steps: its name is put on the chain first, and looked up
afterwards, so that for one state the chain may end in a name that nothing
stands behind.

The machine finds what `walk` finds, in front of any stack
(`finds`).  What a run preserves is `Sound`: names were put on a
chain once, and all but the last led to an entry.
-/

namespace SchemaSets.Walking

/-- How a walk goes on once the issues of a part are known. -/
inductive Frame
  | fields (name : String) (rest : List (String × Validator)) (members : List (String × Value))
      (extra sofar : List Issue)
  | items (item : Validator) (position : Nat) (rest : List Value) (sofar : List Issue)
  | members (value : Validator) (key : String) (rest : List (String × Value))
      (sofar : List Issue)
  | branches (chain : List String) (rest : List Validator) (count : Nat) (slot : Slot)

/-- A state of a walk: before a validator is looked at, before the name that was
put on the chain is looked up, and with the issues of a part or the cause that
breaks the walk off. -/
inductive State
  | check (chain : List String) (v : Validator) (slot : Slot) (stack : List Frame)
  | lookup (chain : List String) (target owner : String) (registry : Handle) (slot : Slot)
      (stack : List Frame)
  | found (issues : List Issue) (stack : List Frame)
  | broken (cause : ReferenceError)

namespace State

/-- On to the next field, or to the end of an object. -/
def onFields (members : List (String × Value)) (extra sofar : List Issue) (stack : List Frame) :
    List (String × Validator) → State
  | [] => .found (sofar ++ extra) stack
  | (name, field) :: rest =>
    .check [] field (Keyed.find? name members) (.fields name rest members extra sofar :: stack)

/-- On to the next item, or to the end of an array. -/
def onItems (item : Validator) (position : Nat) (sofar : List Issue) (stack : List Frame) :
    List Value → State
  | [] => .found sofar stack
  | x :: rest => .check [] item (some x) (.items item position rest sofar :: stack)

/-- On to the next member, or to the end of a record. -/
def onMembers (value : Validator) (sofar : List Issue) (stack : List Frame) :
    List (String × Value) → State
  | [] => .found sofar stack
  | (key, x) :: rest => .check [] value (some x) (.members value key rest sofar :: stack)

/-- On to the next branch, or to the issue that none fits. -/
def onBranches (chain : List String) (count : Nat) (slot : Slot) (stack : List Frame) :
    List Validator → State
  | [] => .found [Issue.here (.oneBranchOf count) slot] stack
  | branch :: rest => .check chain branch slot (.branches chain rest count slot :: stack)

/-- How a frame takes up the issues of a part. -/
def resume (issues : List Issue) (stack : List Frame) : Frame → State
  | .fields name rest members extra sofar =>
    onFields members extra (sofar ++ issues.map (Issue.under (.field name))) stack rest
  | .items item position rest sofar =>
    onItems item (position + 1) (sofar ++ issues.map (Issue.under (.index position))) stack rest
  | .members value key rest sofar =>
    onMembers value (sofar ++ issues.map (Issue.under (.key key))) stack rest
  | .branches chain rest count slot =>
    if issues.isEmpty then .found [] stack else onBranches chain count slot stack rest

/-- How a validator is taken up. -/
def enter (chain : List String) (slot : Slot) (stack : List Frame) : Validator → State
  | .any => .found [] stack
  | .literal text => .found (checked (slot.isText [text]) (.literal text) slot) stack
  | .boolean => .found (checked slot.isBool .boolean slot) stack
  | .string => .found (checked slot.isString .string slot) stack
  | .number => .found (checked slot.isNumber .number slot) stack
  | .enumeration values => .found (checked (slot.isText values) (.oneOf values) slot) stack
  | .function _ _ => .found (checked slot.isFunction .function slot) stack
  | .object fields closed =>
    match slot with
    | some (.object members) =>
      onFields members (if closed then unlisted fields members else []) [] stack fields
    | slot => .found [Issue.here .object slot] stack
  | .array item =>
    match slot with
    | some (.array items) => onItems item 0 [] stack items
    | slot => .found [Issue.here .array slot] stack
  | .record value =>
    match slot with
    | some (.object members) => onMembers value [] stack members
    | slot => .found [Issue.here .record slot] stack
  | .union branches => onBranches chain branches.length slot stack branches
  | .lazy _ child => .check chain child slot stack
  | .reference target owner registry =>
    if target ∈ chain then .found [⟨[], .reference target, .referenceCycle⟩] stack
    else .lookup chain target owner registry slot stack
  | .optional inner =>
    match slot with
    | none => .found [] stack
    | some x => .check chain inner (some x) stack

end State

/-- The walk as a machine. -/
def machine (shelf : Shelf) : Machine State (Except ReferenceError Report) where
  step
    | .check chain v slot stack => .inl (.enter chain slot stack v)
    | .lookup chain target owner registry slot stack =>
      match shelf.resolve registry target owner with
      | .error cause => .inl (.broken cause)
      | .ok entry => .inl (.check (target :: chain) entry.validator slot stack)
    | .found issues [] => .inr (.ok ⟨issues⟩)
    | .found issues (frame :: stack) => .inl (.resume issues stack frame)
    | .broken cause => .inr (.error cause)

/-- Where the check of a slot starts. -/
def start (v : Validator) (slot : Slot) : State := .check [] v slot []

/-! ## What the machine finds -/

/-- The state in which the outcome of a part is known. -/
def outcome (stack : List Frame) : Except ReferenceError (List Issue) → State
  | .ok issues => .found issues stack
  | .error cause => .broken cause

variable {shelf : Shelf}

/-- The machine finds what the walk finds, in front of any stack. -/
def Finds (shelf : Shelf) (chain : List String) (v : Validator) (slot : Slot) : Prop :=
  ∀ stack, (machine shelf).Reaches (.check chain v slot stack)
    (outcome stack (walk shelf chain v slot))

/-- Once a part is checked, the frame on top takes up its issues and goes on, or
everything is broken off. -/
private theorem Finds.andThen {chain : List String} {v : Validator} {slot : Slot} {frame : Frame}
    {stack : List Frame} {next : List Issue → Except ReferenceError (List Issue)}
    (h : Finds shelf chain v slot)
    (hnext : ∀ issues, (machine shelf).Reaches (.resume issues stack frame)
      (outcome stack (next issues))) :
    (machine shelf).Reaches (.check chain v slot (frame :: stack))
      (outcome stack (walk shelf chain v slot >>= next)) := by
  refine (h (frame :: stack)).trans ?_
  cases walk shelf chain v slot with
  | ok issues => exact .head rfl (hnext issues)
  | error cause => exact .refl

/-- The fields of an object are gone through as the walk goes through them. -/
private theorem reaches_onFields {fields : List (String × Validator)}
    {members : List (String × Value)} (extra sofar : List Issue) (stack : List Frame)
    (h : ∀ field ∈ fields, Finds shelf [] field.2 (Keyed.find? field.1 members)) :
    (machine shelf).Reaches (.onFields members extra sofar stack fields)
      (outcome stack ((walkFields shelf fields members).map fun more =>
        sofar ++ more ++ extra)) := by
  induction fields generalizing sofar with
  | nil =>
      rw [walkFields, Except.map, List.append_nil]
      exact .refl
  | cons field rest ih =>
      obtain ⟨name, v⟩ := field
      rw [walkFields, map_bind_eq]
      refine (h (name, v) List.mem_cons_self).andThen fun issues => ?_
      have hrest := ih (sofar ++ issues.map (Issue.under (.field name)))
        fun field hfield => h field (List.mem_cons_of_mem _ hfield)
      rw [bind_ok_eq_map, map_map_eq]
      simpa only [State.resume, List.append_assoc] using hrest

/-- Before there are any issues, those to come are all. -/
private theorem map_nil_append (x : Except ReferenceError (List Issue)) :
    x.map (fun more => [] ++ more) = x := by
  cases x <;> rfl

/-- The items of an array are gone through as the walk goes through them. -/
private theorem reaches_onItems {item : Validator} {items : List Value} (position : Nat)
    (sofar : List Issue) (stack : List Frame) (h : ∀ x ∈ items, Finds shelf [] item (some x)) :
    (machine shelf).Reaches (.onItems item position sofar stack items)
      (outcome stack ((walkItems shelf item position items).map fun more => sofar ++ more)) := by
  induction items generalizing position sofar with
  | nil =>
      rw [walkItems, Except.map, List.append_nil]
      exact .refl
  | cons x rest ih =>
      rw [walkItems, map_bind_eq]
      refine (h x List.mem_cons_self).andThen fun issues => ?_
      have hrest := ih (position + 1) (sofar ++ issues.map (Issue.under (.index position)))
        fun y hy => h y (List.mem_cons_of_mem _ hy)
      rw [bind_ok_eq_map, map_map_eq]
      simpa only [State.resume, List.append_assoc] using hrest

/-- The members of a record are gone through as the walk goes through them. -/
private theorem reaches_onMembers {value : Validator} {members : List (String × Value)}
    (sofar : List Issue) (stack : List Frame)
    (h : ∀ member ∈ members, Finds shelf [] value (some member.2)) :
    (machine shelf).Reaches (.onMembers value sofar stack members)
      (outcome stack ((walkMembers shelf value members).map fun more => sofar ++ more)) := by
  induction members generalizing sofar with
  | nil =>
      rw [walkMembers, Except.map, List.append_nil]
      exact .refl
  | cons member rest ih =>
      obtain ⟨key, x⟩ := member
      rw [walkMembers, map_bind_eq]
      refine (h (key, x) List.mem_cons_self).andThen fun issues => ?_
      have hrest := ih (sofar ++ issues.map (Issue.under (.key key)))
        fun member hmember => h member (List.mem_cons_of_mem _ hmember)
      rw [bind_ok_eq_map, map_map_eq]
      simpa only [State.resume, List.append_assoc] using hrest

/-- The branches of a union are tried as the walk tries them. -/
private theorem reaches_onBranches {chain : List String} {branches : List Validator} (count : Nat)
    {slot : Slot} (stack : List Frame) (h : ∀ branch ∈ branches, Finds shelf chain branch slot) :
    (machine shelf).Reaches (.onBranches chain count slot stack branches)
      (outcome stack ((walkBranches shelf chain branches slot).map fun fits =>
        checked fits (.oneBranchOf count) slot)) := by
  induction branches with
  | nil =>
      rw [walkBranches]
      exact .refl
  | cons branch rest ih =>
      rw [walkBranches, map_bind_eq]
      refine (h branch List.mem_cons_self).andThen fun issues => ?_
      have hrest := ih fun other hother => h other (List.mem_cons_of_mem _ hother)
      rw [State.resume]
      split
      · exact .refl
      · exact hrest

/-- A name that is not on the chain is put on it and looked up. -/
private theorem goes_lookup (shelf : Shelf) {chain : List String} {target : String}
    (hnew : target ∉ chain) (owner : String) (registry : Handle) (slot : Slot)
    (stack : List Frame) :
    (machine shelf).Goes (.check chain (.reference target owner registry) slot stack)
      (.lookup chain target owner registry slot stack) := by
  show Sum.inl (State.enter _ _ _ _) = _
  rw [State.enter, if_neg hnew]

/-- The machine finds what the walk finds. -/
theorem finds (shelf : Shelf) (chain : List String) (v : Validator) (slot : Slot) :
    Finds shelf chain v slot := by
  induction chain, v, slot using walk_induction shelf with
  | leaf chain v slot hleaf =>
      intro stack
      refine .single ?_
      cases v with
      | any | literal | boolean | string | number | enumeration | function =>
          rw [walk]
          rfl
      | _ => exact hleaf.elim
  | object chain fields closed members ih =>
      intro stack
      have hfields := reaches_onFields (if closed then unlisted fields members else []) [] stack ih
      rw [walk, bind_ok_eq_map]
      exact .head rfl hfields
  | noObject chain fields closed slot h =>
      intro stack
      rw [walk_noObject h]
      exact .single (congrArg Sum.inl (State.enter.eq_9 chain slot stack fields closed h))
  | array chain item items ih =>
      intro stack
      have hitems := reaches_onItems 0 [] stack ih
      rw [map_nil_append] at hitems
      rw [walk]
      exact .head rfl hitems
  | noArray chain item slot h =>
      intro stack
      rw [walk_noArray h]
      exact .single (congrArg Sum.inl (State.enter.eq_11 chain slot stack item h))
  | record chain value members ih =>
      intro stack
      have hmembers := reaches_onMembers [] stack ih
      rw [map_nil_append] at hmembers
      rw [walk]
      exact .head rfl hmembers
  | noRecord chain value slot h =>
      intro stack
      rw [walk_noRecord h]
      exact .single (congrArg Sum.inl (State.enter.eq_13 chain slot stack value h))
  | union chain branches slot ih =>
      intro stack
      have hbranches := reaches_onBranches branches.length stack ih
      rw [walk, bind_ok_eq_map]
      exact .head rfl hbranches
  | lazy chain label child slot ih =>
      intro stack
      rw [walk]
      exact .head rfl (ih stack)
  | cycle chain target owner registry slot h =>
      intro stack
      rw [walk_cycle h]
      refine .single ?_
      simp [Machine.Goes, machine, State.enter, h, outcome]
  | broken chain target owner registry slot cause hnew h =>
      intro stack
      have henter := goes_lookup shelf hnew owner registry slot stack
      have hlookup : (machine shelf).Goes (.lookup chain target owner registry slot stack)
          (.broken cause) := by
        simp [Machine.Goes, machine, h]
      rw [walk_broken hnew h]
      exact .head henter (.single hlookup)
  | follow chain target owner registry slot entry hnew h ih =>
      intro stack
      have henter := goes_lookup shelf hnew owner registry slot stack
      have hlookup : (machine shelf).Goes (.lookup chain target owner registry slot stack)
          (.check (target :: chain) entry.validator slot stack) := by
        simp [Machine.Goes, machine, h]
      rw [walk_follow hnew h]
      exact .head henter (.head hlookup (ih stack))
  | absent chain inner =>
      intro stack
      rw [walk]
      exact .single rfl
  | present chain inner x ih =>
      intro stack
      rw [walk]
      exact .head rfl (ih stack)

/-- The walk ends with the report. -/
theorem ends_start (shelf : Shelf) (v : Validator) (slot : Slot) :
    (machine shelf).Ends (start v slot) (v.validateSlot shelf slot) := by
  refine Machine.Reaches.ends (finds shelf [] v slot []) (Machine.ends_of_step ?_)
  rw [Validator.validateSlot]
  cases walk shelf [] v slot <;> rfl

/-! ## What a run preserves -/

/-- The chains that a frame holds. -/
def Frame.chains : Frame → List (List String)
  | .branches chain _ _ _ => [chain]
  | _ => []

/-- The chains that a state holds; the last name of a chain stands first. -/
def State.chains : State → List (List String)
  | .check chain _ _ stack => chain :: stack.flatMap Frame.chains
  | .lookup chain target _ _ _ stack => (target :: chain) :: stack.flatMap Frame.chains
  | .found _ stack => stack.flatMap Frame.chains
  | .broken _ => []

/-- A chain of names that are all known, none twice. -/
structure Settled (names chain : List String) : Prop where
  once : chain.Nodup
  known : chain ⊆ names

variable (registry : Handle) (names : List String)

/-- What a frame is to go on with stays behind the handle, and its chain is
settled. -/
def Frame.Sound : Frame → Prop
  | .fields _ rest _ _ _ => ∀ link ∈ Validator.linksOfFields rest, link.registry = registry
  | .items item _ _ _ => ∀ link ∈ item.links, link.registry = registry
  | .members value _ _ _ => ∀ link ∈ value.links, link.registry = registry
  | .branches chain rest _ _ =>
    Settled names chain ∧ ∀ link ∈ Validator.linksOfList rest, link.registry = registry

/-- What a state looks at stays behind the handle, and its chains are settled but
for a name that is still to be looked up. -/
def State.Sound : State → Prop
  | .check chain v _ stack =>
    Settled names chain ∧ (∀ link ∈ v.links, link.registry = registry) ∧
      ∀ frame ∈ stack, frame.Sound registry names
  | .lookup chain target _ through _ stack =>
    Settled names chain ∧ target ∉ chain ∧ through = registry ∧
      ∀ frame ∈ stack, frame.Sound registry names
  | .found _ stack => ∀ frame ∈ stack, frame.Sound registry names
  | .broken _ => True

variable {registry : Handle} {names : List String} {stack : List Frame}

private theorem settled_nil : Settled names [] := ⟨List.nodup_nil, List.nil_subset _⟩

section Parts

variable (hstack : ∀ frame ∈ stack, frame.Sound registry names)

include hstack

private theorem sound_onFields {fields : List (String × Validator)}
    (h : ∀ link ∈ Validator.linksOfFields fields, link.registry = registry)
    (members : List (String × Value)) (extra sofar : List Issue) :
    (State.onFields members extra sofar stack fields).Sound registry names := by
  cases fields with
  | nil => exact hstack
  | cons field rest =>
      rw [Validator.linksOfFields, List.forall_mem_append] at h
      exact ⟨settled_nil, h.1, List.forall_mem_cons.2 ⟨h.2, hstack⟩⟩

private theorem sound_onItems {item : Validator}
    (h : ∀ link ∈ item.links, link.registry = registry) (position : Nat) (sofar : List Issue)
    (items : List Value) :
    (State.onItems item position sofar stack items).Sound registry names := by
  cases items with
  | nil => exact hstack
  | cons x rest => exact ⟨settled_nil, h, List.forall_mem_cons.2 ⟨h, hstack⟩⟩

private theorem sound_onMembers {value : Validator}
    (h : ∀ link ∈ value.links, link.registry = registry) (sofar : List Issue)
    (members : List (String × Value)) :
    (State.onMembers value sofar stack members).Sound registry names := by
  cases members with
  | nil => exact hstack
  | cons member rest => exact ⟨settled_nil, h, List.forall_mem_cons.2 ⟨h, hstack⟩⟩

private theorem sound_onBranches {chain : List String} (hchain : Settled names chain)
    {branches : List Validator}
    (h : ∀ link ∈ Validator.linksOfList branches, link.registry = registry) (count : Nat)
    (slot : Slot) : (State.onBranches chain count slot stack branches).Sound registry names := by
  cases branches with
  | nil => exact hstack
  | cons branch rest =>
      rw [Validator.linksOfList, List.forall_mem_append] at h
      exact ⟨hchain, h.1, List.forall_mem_cons.2 ⟨⟨hchain, h.2⟩, hstack⟩⟩

/-- Taking up the issues of a part is sound. -/
private theorem sound_resume {frame : Frame} (h : frame.Sound registry names)
    (issues : List Issue) : (State.resume issues stack frame).Sound registry names := by
  cases frame with
  | fields name rest members extra sofar => exact sound_onFields hstack h ..
  | items item position rest sofar => exact sound_onItems hstack h ..
  | members value key rest sofar => exact sound_onMembers hstack h ..
  | branches chain rest count slot =>
      rw [State.resume]
      split
      · exact hstack
      · exact sound_onBranches hstack h.1 h.2 ..

/-- Taking up a validator is sound. -/
private theorem sound_enter {chain : List String} (hchain : Settled names chain) {v : Validator}
    (h : ∀ link ∈ v.links, link.registry = registry) (slot : Slot) :
    (State.enter chain slot stack v).Sound registry names := by
  fun_cases State.enter chain slot stack v with
  | case8 fields closed members => exact sound_onFields hstack h ..
  | case10 item items =>
      have hitem : ∀ link ∈ item.links, link.registry = registry := h
      exact sound_onItems hstack hitem ..
  | case12 value members =>
      have hvalue : ∀ link ∈ value.links, link.registry = registry := h
      exact sound_onMembers hstack hvalue ..
  | case14 branches => exact sound_onBranches hstack hchain h ..
  | case15 label child => exact ⟨hchain, h, hstack⟩
  | case17 slot target owner through hnew =>
      exact ⟨hchain, hnew, h _ (List.mem_singleton_self _), hstack⟩
  | case19 inner x => exact ⟨hchain, h, hstack⟩
  | _ => exact hstack

end Parts

/-- Each step of a walk is sound, if what the handle resolves is a known name and
stays behind the handle. -/
theorem sound_goes (hleads : ∀ {target owner : String} {entry : Entry},
      shelf.resolve registry target owner = .ok entry →
        target ∈ names ∧ ∀ link ∈ entry.validator.links, link.registry = registry)
    {s s' : State} (hs : s.Sound registry names) (h : (machine shelf).Goes s s') :
    s'.Sound registry names := by
  cases s with
  | check chain v slot stack =>
      cases h
      exact sound_enter hs.2.2 hs.1 hs.2.1 slot
  | lookup chain target owner through slot stack =>
      obtain ⟨hchain, hnew, rfl, hstack⟩ := hs
      have hstep : (machine shelf).step (.lookup chain target owner through slot stack) =
        .inl s' := h
      simp only [machine] at hstep
      split at hstep
      · cases hstep
        trivial
      · next entry hentry =>
          cases hstep
          obtain ⟨hknown, hinward⟩ := hleads hentry
          refine ⟨⟨List.nodup_cons.2 ⟨hnew, hchain.once⟩, ?_⟩, hinward, hstack⟩
          exact List.cons_subset.2 ⟨hknown, hchain.known⟩
  | found issues stack =>
      cases stack with
      | nil => cases h
      | cons frame stack =>
          cases h
          rw [State.Sound, List.forall_mem_cons] at hs
          exact sound_resume hs.2 hs.1 issues
  | broken cause => cases h

/-- Every run from a validator that stays behind the handle is sound. -/
theorem sound_of_reaches (hleads : ∀ {target owner : String} {entry : Entry},
      shelf.resolve registry target owner = .ok entry →
        target ∈ names ∧ ∀ link ∈ entry.validator.links, link.registry = registry)
    {v : Validator} {slot : Slot} (hv : ∀ link ∈ v.links, link.registry = registry) {s : State}
    (h : (machine shelf).Reaches (start v slot) s) : s.Sound registry names := by
  induction h with
  | refl => exact ⟨settled_nil, hv, fun _ hframe => absurd hframe List.not_mem_nil⟩
  | tail _ hgoes ih => exact sound_goes hleads ih hgoes

/-- The chains of a sound state have no name twice, and all names but the last
are known. -/
theorem State.Sound.chains {s : State} (hs : s.Sound registry names) :
    ∀ chain ∈ s.chains, chain.Nodup ∧ chain.tail ⊆ names := by
  have hsettled : ∀ chain, Settled names chain → chain.Nodup ∧ chain.tail ⊆ names :=
    fun chain h => ⟨h.once, List.Subset.trans (List.tail_sublist chain).subset h.known⟩
  have hframes : ∀ stack : List Frame, (∀ frame ∈ stack, frame.Sound registry names) →
      ∀ chain ∈ stack.flatMap Frame.chains, chain.Nodup ∧ chain.tail ⊆ names := by
    intro stack hstack chain hchain
    obtain ⟨frame, hframe, hchain⟩ := List.mem_flatMap.1 hchain
    cases frame with
    | branches chain' rest count slot =>
        obtain rfl := List.mem_singleton.1 hchain
        exact hsettled _ (hstack _ hframe).1
    | _ => cases hchain
  cases s with
  | check chain v slot stack =>
      exact List.forall_mem_cons.2 ⟨hsettled _ hs.1, hframes stack hs.2.2⟩
  | lookup chain target owner through slot stack =>
      obtain ⟨hchain, hnew, -, hstack⟩ := hs
      refine List.forall_mem_cons.2 ⟨⟨?_, hchain.known⟩, hframes stack hstack⟩
      exact List.nodup_cons.2 ⟨hnew, hchain.once⟩
  | found issues stack => exact hframes stack hs
  | broken cause => exact fun _ h => absurd h List.not_mem_nil

/-- A chain with no name twice, of which all but the last are known, has at most
one name more than there are. -/
theorem length_chain_le {chain : List String} (honce : chain.Nodup)
    (hknown : chain.tail ⊆ names) : chain.length ≤ names.length + 1 := by
  cases chain with
  | nil => exact Nat.zero_le _
  | cons target chain =>
      have hle := (List.nodup_cons.1 honce).2.length_le_of_subset hknown
      exact Nat.succ_le_succ hle

end SchemaSets.Walking
