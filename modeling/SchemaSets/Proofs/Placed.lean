import SchemaSets.Proofs.Building
import SchemaSets.Proofs.Sessions

/-!
# Nodes at their places

Every node of a compiled set has a place, and every place at most one node
(`Holds.eq_of_place_eq`).  A node lies in the *signature* of a function if one of the
nodes above it is a function; `Holds` keeps track of that on the way down.

No operation goes into a signature.  Walking, searching for absence and writing
schemas go from a node to its children, never from a function, and from a reference
to an entry; so from a node outside signatures they come to nodes outside signatures
only, and what they build are lazy nodes among these (`defers_of_mem_builtByWalk` and
its like).  What a whole session builds lies outside signatures (`isOpen_of_mem_builds`).
-/

namespace SchemaSets

/-- A validator is a function. -/
def Validator.isFunction : Validator → Bool
  | .function _ _ => true
  | _ => false

namespace CompiledSet

/-- The nodes of a set at their places, `signed` telling whether a node lies in the
signature of a function. -/
inductive Holds (set : CompiledSet) (registry : Handle) : (signed : Bool) → Located → Prop
  | entry {name : String} {node : Located} (found : set.located? registry name = some node) :
      Holds set registry false node
  | child {signed : Bool} {node : Located} {v : Validator}
      (above : Holds set registry signed node) (position : Nat)
      (found : node.validator.children[position]? = some v) :
      Holds set registry (signed || node.validator.isFunction) ⟨node.place.child position, v⟩

/-- A place at which there is a node outside signatures. -/
def IsOpen (set : CompiledSet) (registry : Handle) (place : Place) : Prop :=
  ∃ v, set.Holds registry false ⟨place, v⟩

/-- A place at which there is a lazy node outside signatures. -/
def Defers (set : CompiledSet) (registry : Handle) (place : Place) : Prop :=
  ∃ label child, set.Holds registry false ⟨place, .lazy label child⟩

end CompiledSet

/-- What is not a function has the links of its children. -/
theorem Validator.mem_links_of_child {v child : Validator} (hfunction : v.isFunction = false)
    (hchild : child ∈ v.children) {link : Link} (h : link ∈ child.links) : link ∈ v.links := by
  cases v with
  | object fields closed =>
      obtain ⟨field, hfield, rfl⟩ := List.mem_map.1 hchild
      exact mem_linksOfFields.2 ⟨field, hfield, h⟩
  | union branches => exact mem_linksOfList.2 ⟨child, hchild, h⟩
  | function args returns => cases hfunction
  | array item | record item | optional item =>
      cases List.mem_singleton.1 hchild
      exact h
  | lazy label item =>
      cases List.mem_singleton.1 hchild
      exact h
  | _ => cases hchild

/-- The place of a child is no root. -/
theorem Place.child_ne_ofEntry {place : Place} {position : Nat} {registry : Handle}
    {name : String} : place.child position ≠ .ofEntry registry name :=
  fun h => List.cons_ne_nil _ _ (congrArg Place.steps h)

/-- The place of a child tells the place above and the position. -/
theorem Place.child_inj {place other : Place} {position found : Nat}
    (h : place.child position = other.child found) : place = other ∧ position = found := by
  obtain ⟨root, steps⟩ := place
  obtain ⟨root', steps'⟩ := other
  cases h
  exact ⟨rfl, rfl⟩

section Places

variable {set : CompiledSet} {registry : Handle} {signed : Bool} {node : Located}

/-- An entry stands at the root of its name. -/
theorem CompiledSet.place_of_located? {name : String} (h : set.located? registry name = some node) :
    node.place = .ofEntry registry name := by
  obtain ⟨entry, -, rfl⟩ := Option.map_eq_some_iff.1 h
  rfl

namespace CompiledSet.Holds

/-- At a place there is one node at most, and it lies in a signature or it does not. -/
theorem eq_of_place_eq (h : set.Holds registry signed node) {other : Bool} {found : Located}
    (hother : set.Holds registry other found) (hplace : node.place = found.place) :
    signed = other ∧ node = found := by
  induction h generalizing other found with
  | @entry name node hnode =>
      cases hother with
      | @entry same _ hfound =>
          rw [place_of_located? hnode, place_of_located? hfound] at hplace
          cases hplace
          rw [hnode] at hfound
          exact ⟨rfl, Option.some.inj hfound⟩
      | child above _ _ =>
          exact absurd (hplace.symm.trans (place_of_located? hnode)) Place.child_ne_ofEntry
  | @child signed node v above position hv ih =>
      cases hother with
      | entry hfound =>
          exact absurd (hplace.trans (place_of_located? hfound)) Place.child_ne_ofEntry
      | child aboveToo _ hw =>
          obtain ⟨habove, rfl⟩ := Place.child_inj hplace
          obtain ⟨rfl, rfl⟩ := ih aboveToo habove
          rw [hv] at hw
          cases hw
          exact ⟨rfl, rfl⟩

/-- A child of a node outside signatures is outside signatures, unless the node is a
function. -/
theorem child_of_not_function (h : set.Holds registry false node)
    (hfunction : node.validator.isFunction = false) {position : Nat} {v : Validator}
    (hv : node.validator.children[position]? = some v) :
    set.Holds registry false ⟨node.place.child position, v⟩ := by
  have hchild := h.child position hv
  rwa [hfunction] at hchild

/-- The links of a node outside signatures are links of its entry. -/
theorem registry_of_mem_links {shelf : Shelf} (hset : Stands shelf registry set)
    (h : set.Holds registry signed node) (hopen : signed = false) :
    ∀ link ∈ node.validator.links, link.registry = registry := by
  induction h with
  | entry hfound =>
      obtain ⟨entry, hentry, rfl⟩ := Option.map_eq_some_iff.1 hfound
      exact hset.inward hentry
  | @child signed node v above position hv ih =>
      obtain ⟨rfl, hfunction⟩ := Bool.or_eq_false_iff.1 hopen
      intro link hlink
      exact ih rfl link (node.validator.mem_links_of_child hfunction (List.mem_of_getElem? hv) hlink)

end CompiledSet.Holds

/-- What a name resolves to stands in the set. -/
theorem Stands.holds_of_resolve {shelf : Shelf} (hset : Stands shelf registry set)
    {target owner : String} {entry : Entry} (h : shelf.resolve registry target owner = .ok entry) :
    set.Holds registry false (.ofEntry registry target entry.validator) := by
  have hfound : set.get? target = some entry := hset.resolve_eq_ok_iff.1 h
  exact .entry (congrArg (Option.map _) hfound)

end Places

/-! ## Walks -/

section Walks

variable {shelf : Shelf} {place p : Place} {registry : Handle} {set : CompiledSet}

/-- A walk from outside signatures stays outside. -/
theorem defers_of_mem_builtByWalk (hset : Stands shelf registry set) {chain : List String}
    {v : Validator} {slot : Slot} (hnode : set.Holds registry false ⟨place, v⟩)
    (h : p ∈ builtByWalk shelf chain place v slot) : set.Defers registry p := by
  induction chain, v, slot using walk_induction shelf generalizing place with
  | leaf chain v slot hleaf =>
      rw [builtByWalk_leaf hleaf] at h
      cases h
  | object chain fields closed members ih =>
      rw [builtByWalk] at h
      obtain ⟨position, field, hfield, hmem⟩ := exists_of_mem_builtByFields h
      rw [Nat.zero_add] at hmem
      have hchild : (Validator.object fields closed).children[position]? = some field.2 := by
        rw [Validator.children, List.getElem?_map, hfield]
        rfl
      exact ih field (List.mem_of_getElem? hfield) (hnode.child_of_not_function rfl hchild) hmem
  | noObject chain fields closed slot hother =>
      rw [builtByWalk_noObject hother] at h
      cases h
  | array chain item items ih =>
      rw [builtByWalk] at h
      obtain ⟨x, hx, hmem⟩ := exists_of_mem_builtByItems h
      exact ih x hx (hnode.child_of_not_function rfl rfl) hmem
  | noArray chain item slot hother =>
      rw [builtByWalk_noArray hother] at h
      cases h
  | record chain value members ih =>
      rw [builtByWalk] at h
      obtain ⟨member, hmember, hmem⟩ := exists_of_mem_builtByMembers h
      exact ih member hmember (hnode.child_of_not_function rfl rfl) hmem
  | noRecord chain value slot hother =>
      rw [builtByWalk_noRecord hother] at h
      cases h
  | union chain branches slot ih =>
      rw [builtByWalk] at h
      obtain ⟨position, branch, hbranch, hmem⟩ := exists_of_mem_builtByBranches h
      rw [Nat.zero_add] at hmem
      exact ih branch (List.mem_of_getElem? hbranch)
        (hnode.child_of_not_function rfl hbranch) hmem
  | lazy chain label child slot ih =>
      rw [builtByWalk, List.mem_cons] at h
      rcases h with rfl | hmem
      · exact ⟨_, _, hnode⟩
      · exact ih (hnode.child_of_not_function rfl rfl) hmem
  | cycle chain target owner through slot hmet =>
      rw [builtByWalk_cycle hmet] at h
      cases h
  | broken chain target owner through slot cause hnew hbroken =>
      rw [builtByWalk_broken hnew hbroken] at h
      cases h
  | follow chain target owner through slot entry hnew hfollow ih =>
      have hthrough : through = registry :=
        hnode.registry_of_mem_links hset rfl ⟨target, owner, through⟩ (List.mem_singleton_self _)
      subst hthrough
      rw [builtByWalk_follow hnew hfollow] at h
      exact ih (hset.holds_of_resolve hfollow) h
  | absent chain inner =>
      rw [builtByWalk] at h
      cases h
  | present chain inner x ih =>
      rw [builtByWalk] at h
      exact ih (hnode.child_of_not_function rfl rfl) h

end Walks

/-! ## Absence and schemas -/

section Schemas

variable {shelf : Shelf} {place p : Place} {registry : Handle} {set : CompiledSet}

/-- The children of a place are at their positions. -/
theorem Place.exists_of_mem_children {first : Nat} {vs : List Validator} {node : Located}
    (h : node ∈ place.children first vs) :
    ∃ position v, vs[position]? = some v ∧ node = ⟨place.child (first + position), v⟩ := by
  induction vs generalizing first with
  | nil => cases h
  | cons v vs ih =>
      rcases List.mem_cons.1 h with rfl | hrest
      · exact ⟨0, v, rfl, rfl⟩
      · obtain ⟨position, w, hw, rfl⟩ := ih hrest
        exact ⟨position + 1, w, hw, by rw [← Nat.add_assoc, Nat.add_right_comm]⟩

/-- A search for absence from outside signatures stays outside. -/
theorem defers_of_mem_builtBySearch (hset : Stands shelf registry set) {followed : List String}
    {stack : List Located} (hstack : ∀ node ∈ stack, set.Holds registry false node)
    (h : p ∈ builtBySearch shelf followed stack) : set.Defers registry p := by
  fun_induction builtBySearch shelf followed stack with
  | case1 followed => cases h
  | case2 followed _ rest => cases h
  | case3 followed _ inner rest => cases h
  | case4 followed place label child rest ih =>
      obtain ⟨hnode, hrest⟩ := List.forall_mem_cons.1 hstack
      rcases List.mem_cons.1 h with rfl | hmem
      · exact ⟨_, _, hnode⟩
      · exact ih (List.forall_mem_cons.2 ⟨hnode.child_of_not_function rfl rfl, hrest⟩) hmem
  | case5 followed place branches rest ih =>
      obtain ⟨hnode, hrest⟩ := List.forall_mem_cons.1 hstack
      refine ih (List.forall_mem_append.2 ⟨fun child hchild => ?_, hrest⟩) h
      obtain ⟨position, branch, hbranch, rfl⟩ := Place.exists_of_mem_children hchild
      rw [Nat.zero_add]
      exact hnode.child_of_not_function rfl hbranch
  | case6 followed _ target owner through rest hmet ih =>
      exact ih (List.forall_mem_cons.1 hstack).2 h
  | case7 followed _ target owner through rest hnew cause hbroken ih =>
      exact ih (List.forall_mem_cons.1 hstack).2 h
  | case8 followed place target owner through rest hnew entry hfollow ih =>
      obtain ⟨hnode, hrest⟩ := List.forall_mem_cons.1 hstack
      have hthrough : through = registry :=
        hnode.registry_of_mem_links hset rfl ⟨target, owner, through⟩ (List.mem_singleton_self _)
      subst hthrough
      exact ih (List.forall_mem_cons.2 ⟨hset.holds_of_resolve hfollow, hrest⟩) h
  | case9 followed node rest _ _ _ _ _ ih => exact ih (List.forall_mem_cons.1 hstack).2 h

/-- The question of absence outside signatures stays outside. -/
theorem defers_of_mem_builtByAbsence (hset : Stands shelf registry set) {node : Located}
    (hnode : set.Holds registry false node) (h : p ∈ node.builtByAbsence shelf) :
    set.Defers registry p :=
  defers_of_mem_builtBySearch hset (List.forall_mem_singleton.2 hnode) h

mutual
/-- Writing the schema of a validator outside signatures stays outside. -/
theorem defers_of_mem_builtBySchema (hset : Stands shelf registry set) {v : Validator}
    {place : Place} (hnode : set.Holds registry false ⟨place, v⟩)
    (h : p ∈ v.builtBySchema shelf place) : set.Defers registry p := by
  cases v with
  | object fields closed =>
      refine defers_of_mem_builtBySchemaFields hset (fun position field hfield => ?_) h
      rw [Nat.zero_add]
      refine hnode.child_of_not_function rfl ?_
      rw [Validator.children, List.getElem?_map, hfield]
      rfl
  | array item => exact defers_of_mem_builtBySchema hset (hnode.child_of_not_function rfl rfl) h
  | record value => exact defers_of_mem_builtBySchema hset (hnode.child_of_not_function rfl rfl) h
  | union branches =>
      refine defers_of_mem_builtBySchemaList hset (fun position branch hbranch => ?_) h
      rw [Nat.zero_add]
      exact hnode.child_of_not_function rfl hbranch
  | lazy label child =>
      rcases List.mem_cons.1 h with rfl | hmem
      · exact ⟨_, _, hnode⟩
      · exact defers_of_mem_builtBySchema hset (hnode.child_of_not_function rfl rfl) hmem
  | optional inner =>
      exact defers_of_mem_builtBySchema hset (hnode.child_of_not_function rfl rfl) h
  | _ => cases h
/-- Writing the schemas of validators outside signatures stays outside. -/
theorem defers_of_mem_builtBySchemaList (hset : Stands shelf registry set) {vs : List Validator}
    {place : Place} {first : Nat}
    (hnodes : ∀ position v, vs[position]? = some v →
      set.Holds registry false ⟨place.child (first + position), v⟩)
    (h : p ∈ Validator.builtBySchemaList shelf place first vs) : set.Defers registry p := by
  cases vs with
  | nil => cases h
  | cons v vs =>
      rw [Validator.builtBySchemaList, List.mem_append] at h
      rcases h with hfirst | hrest
      · exact defers_of_mem_builtBySchema hset (hnodes 0 v rfl) hfirst
      · refine defers_of_mem_builtBySchemaList hset (fun position w hw => ?_) hrest
        rw [Nat.add_right_comm, Nat.add_assoc]
        exact hnodes (position + 1) w hw
/-- Writing the schemas of fields outside signatures stays outside. -/
theorem defers_of_mem_builtBySchemaFields (hset : Stands shelf registry set)
    {fields : List (String × Validator)} {place : Place} {first : Nat}
    (hnodes : ∀ position field, fields[position]? = some field →
      set.Holds registry false ⟨place.child (first + position), field.2⟩)
    (h : p ∈ Validator.builtBySchemaFields shelf place first fields) : set.Defers registry p := by
  cases fields with
  | nil => cases h
  | cons field rest =>
      obtain ⟨name, v⟩ := field
      rw [Validator.builtBySchemaFields, List.append_assoc, List.mem_append, List.mem_append] at h
      have hfirst := hnodes 0 (name, v) rfl
      rcases h with hschema | habsence | hrest
      · exact defers_of_mem_builtBySchema hset hfirst hschema
      · exact defers_of_mem_builtByAbsence hset hfirst habsence
      · refine defers_of_mem_builtBySchemaFields hset (fun position later hlater => ?_) hrest
        rw [Nat.add_right_comm, Nat.add_assoc]
        exact hnodes (position + 1) later hlater
end

/-- Exporting a set stays outside signatures. -/
theorem defers_of_mem_builtByExport (hset : Stands shelf registry set)
    {dependencies : List (String × List String)}
    (h : p ∈ set.builtByExport shelf registry dependencies) : set.Defers registry p := by
  obtain ⟨name, -, h⟩ := List.mem_flatMap.1 h
  obtain ⟨node, hnode, hmem⟩ := List.mem_flatMap.1 h
  obtain ⟨found, -, hfound⟩ := List.mem_filterMap.1 hnode
  exact defers_of_mem_builtBySchema hset (.entry hfound) hmem

end Schemas

/-! ## Sessions -/

section Sessions

variable {shelf : Shelf} {id : Nat}

/-- What an operation on a compiled set builds are lazy nodes outside signatures. -/
theorem defers_of_mem_builds {settings : CompilerSettings} {set : SchemaSet}
    (hset : Stands shelf (.ofSet id) (set.compile settings (.ofSet id))) {op : Operation}
    {place : Place} (h : place ∈ op.builds shelf id (set.compile settings (.ofSet id))) :
    (set.compile settings (.ofSet id)).Defers (.ofSet id) place := by
  cases op with
  | check name slot | accepts name slot =>
      obtain ⟨node, hnode, hmem⟩ := Operation.exists_of_mem_atEntry h
      exact defers_of_mem_builtByWalk hset (.entry hnode) hmem
  | mayBeAbsent name =>
      obtain ⟨node, hnode, hmem⟩ := Operation.exists_of_mem_atEntry h
      exact defers_of_mem_builtByAbsence hset (.entry hnode) hmem
  | schema exporter name =>
      obtain ⟨node, hnode, hmem⟩ := Operation.exists_of_mem_atEntry h
      exact defers_of_mem_builtBySchema hset (.entry hnode) hmem
  | exportWith exporter dependencies => exact defers_of_mem_builtByExport hset h
  | describe name =>
      rw [Operation.builds_describe] at h
      cases h
  | descriptions => cases h

/-- So it lies outside signatures. -/
theorem isOpen_of_mem_builds {settings : CompilerSettings} {set : SchemaSet}
    (hset : Stands shelf (.ofSet id) (set.compile settings (.ofSet id))) {op : Operation}
    {place : Place} (h : place ∈ op.builds shelf id (set.compile settings (.ofSet id))) :
    (set.compile settings (.ofSet id)).IsOpen (.ofSet id) place := by
  obtain ⟨label, child, hnode⟩ := defers_of_mem_builds hset h
  exact ⟨_, hnode⟩

end Sessions
end SchemaSets
