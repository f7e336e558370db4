import Mathlib.Data.List.Permutation
import SchemaSets.Proofs.Required

/-!
# Cycles through several sets

A reference carries its own handle, so an entry of one set may refer to entries of
another, and what a reference leads to is told by its target and its handle together.
The chain of a walk holds targets only, and so do the names that the search for absence
has followed.

Where no target is looked up through two handles the targets are enough, and inside one
set there is but one handle (`Stands.tellsApart`).  Then every cycle that is met is one,
since the reference that is not followed leads to an entry that the walk has entered
since it last went down.  And all entries that a validator leads to can be gathered in
one set (`gathered`), for which the walk and the search are known to agree
(`cycle_revisits`).

Where two sets share a name it is otherwise (`cycle_namesakes`).  A reference from an
entry to its namesake in another set is taken for a cycle, although the namesake was
never entered.  The walk forgets a target when it gives up a branch and the search does
not, so that an alternative that the walk finds may be missed by the search.

## Main results

* `cycle_revisits` — cycles and absence where names tell entries apart.
* `cycle_namesakes` — two sets that share names.
-/

namespace SchemaSets

/-! ## What a validator leads to -/

/-- The links that a validator leads to, through whichever sets. -/
inductive Shelf.Leads (shelf : Shelf) (v : Validator) : Link → Prop
  | start {link : Link} (mem : link ∈ v.links) : Leads shelf v link
  | onward {link next : Link} {entry : Entry} (leads : Leads shelf v link)
      (found : shelf.follow link = .ok entry) (mem : next ∈ entry.validator.links) :
      Leads shelf v next

/-- No name that a validator leads to is looked up through two handles. -/
def Shelf.TellsApart (shelf : Shelf) (v : Validator) : Prop :=
  ∀ first second, shelf.Leads v first → shelf.Leads v second →
    first.target = second.target → first.registry = second.registry

/-- Inside one set names tell entries apart, since there is but one handle. -/
theorem Stands.tellsApart {shelf : Shelf} {registry : Handle} {set : CompiledSet}
    (hset : Stands shelf registry set) {v : Validator}
    (hinward : ∀ link ∈ v.links, link.registry = registry) : shelf.TellsApart v := by
  have hleads : ∀ link, shelf.Leads v link → link.registry = registry := by
    intro link hlink
    induction hlink with
    | start mem => exact hinward _ mem
    | onward _ found mem ih => exact hset.resolves.onward ih found _ mem
  intro first second hfirst hsecond _
  rw [hleads first hfirst, hleads second hsecond]

/-- Two links look the same name up through the same handle. -/
structure Link.SameEntry (first second : Link) : Prop where
  target : first.target = second.target
  registry : first.registry = second.registry

/-- What a link leads to is told by its target and its handle. -/
theorem Link.SameEntry.follow {first second : Link} (hsame : first.SameEntry second)
    {shelf : Shelf} {entry : Entry} (h : shelf.follow first = .ok entry) :
    shelf.follow second = .ok entry := by
  rw [Shelf.follow, Shelf.resolve, hsame.target, hsame.registry] at h
  rw [Shelf.follow, Shelf.resolve]
  cases hset : shelf.set? second.registry with
  | none =>
      rw [hset] at h
      cases h
  | some set =>
      rw [hset] at h
      cases hget : set.get? second.target with
      | none =>
          simp only [hget] at h
          cases h
      | some found =>
          simp only [hget] at h ⊢
          exact h

section Gathered

variable (shelf : Shelf) (v : Validator)

open Classical in
/-- The entry of a name that a validator leads to, through whichever handle. -/
noncomputable def Shelf.met? (name : String) : Option Entry :=
  if h : ∃ entry link, shelf.Leads v link ∧ link.target = name ∧ shelf.follow link = .ok entry then
    some h.choose
  else none

/-- All entries that a validator leads to, as one set. -/
noncomputable def Shelf.gathered : CompiledSet where
  entries := shelf.names.filterMap fun name => (shelf.met? v name).map fun entry => (name, entry)

variable {shelf : Shelf} {v : Validator}

/-- Where names tell entries apart, the entry met under a name is the one that any link of
the name leads to. -/
theorem Shelf.TellsApart.met?_eq_some_iff (h : shelf.TellsApart v) {link : Link}
    (hlink : shelf.Leads v link) {entry : Entry} :
    shelf.met? v link.target = some entry ↔ shelf.follow link = .ok entry := by
  have hsame : ∀ other found, shelf.Leads v other → other.target = link.target →
      shelf.follow other = .ok found → shelf.follow link = .ok found := by
    intro other found hother htarget hfollow
    exact Link.SameEntry.follow ⟨htarget, h other link hother hlink htarget⟩ hfollow
  constructor
  · intro hmet
    by_cases hex : ∃ entry other, shelf.Leads v other ∧ other.target = link.target ∧
        shelf.follow other = .ok entry
    · rw [Shelf.met?, dif_pos hex, Option.some.injEq] at hmet
      obtain ⟨other, hother, htarget, hfollow⟩ := hex.choose_spec
      rw [← hmet]
      exact hsame other _ hother htarget hfollow
    · rw [Shelf.met?, dif_neg hex] at hmet
      cases hmet
  · intro hfollow
    have hex : ∃ entry other, shelf.Leads v other ∧ other.target = link.target ∧
        shelf.follow other = .ok entry := ⟨entry, link, hlink, rfl, hfollow⟩
    obtain ⟨other, hother, htarget, hfound⟩ := hex.choose_spec
    have hagain := hsame other _ hother htarget hfound
    rw [hfollow, Except.ok.injEq] at hagain
    rw [Shelf.met?, dif_pos hex, hagain]

/-- Where names tell entries apart, all that a validator leads to is found in one set. -/
theorem Shelf.TellsApart.resolves (h : shelf.TellsApart v) :
    Resolves shelf (shelf.gathered v) (shelf.Leads v) where
  found := by
    intro link entry hlink
    rw [← h.met?_eq_some_iff hlink, CompiledSet.get?, Shelf.gathered, Keyed.find?_filterMap]
    by_cases hname : link.target ∈ shelf.names
    · rw [if_pos hname]
    · rw [if_neg hname]
      -- a name of no set is not met either
      have hnot : shelf.met? v link.target ≠ some entry := by
        intro hmet
        exact hname (Shelf.mem_names_of_resolve ((h.met?_eq_some_iff hlink).1 hmet))
      simp [hnot]
  onward := fun hlink hfollow next hnext => .onward hlink hfollow hnext

end Gathered

/-! ## The links on the way of a walk -/

/-- The links that a walk has followed since it last went down, on its way to a link: a
walk that has followed those of the trail comes at the end of the path to `link`, and has
followed those of `last` by then. -/
inductive Comes (shelf : Shelf) (link : Link) (last : List Link) :
    List Link → Validator → Slot → Path → Prop
  | here {slot : Slot} :
      Comes shelf link last last (.reference link.target link.owner link.registry) slot []
  | follow {trail : List Link} {next : Link} {entry : Entry} {slot : Slot} {path : Path}
      (new : next.target ∉ trail.map Link.target) (found : shelf.follow next = .ok entry)
      (comes : Comes shelf link last (next :: trail) entry.validator slot path) :
      Comes shelf link last trail (.reference next.target next.owner next.registry) slot path
  | branch {trail : List Link} {before after : List Validator} {branch : Validator} {slot : Slot}
      {path : Path} (tried : walkBranches shelf (trail.map Link.target) before slot = .ok false)
      (comes : Comes shelf link last trail branch slot path) :
      Comes shelf link last trail (.union (before ++ branch :: after)) slot path
  | lazy {trail : List Link} {label : Option String} {child : Validator} {slot : Slot}
      {path : Path} (comes : Comes shelf link last trail child slot path) :
      Comes shelf link last trail (.lazy label child) slot path
  | present {trail : List Link} {inner : Validator} {x : Value} {path : Path}
      (comes : Comes shelf link last trail inner (some x) path) :
      Comes shelf link last trail (.optional inner) (some x) path
  | field {trail : List Link} {fields : List (String × Validator)} {closed : Bool}
      {members : List (String × Value)} {field : String × Validator} {path : Path}
      (mem : field ∈ fields)
      (comes : Comes shelf link last [] field.2 (Keyed.find? field.1 members) path) :
      Comes shelf link last trail (.object fields closed) (some (.object members))
        (.field field.1 :: path)
  | item {trail : List Link} {item : Validator} {items : List Value} {position : Nat} {x : Value}
      {path : Path} (stands : items[position]? = some x)
      (comes : Comes shelf link last [] item (some x) path) :
      Comes shelf link last trail (.array item) (some (.array items)) (.index position :: path)
  | member {trail : List Link} {value : Validator} {members : List (String × Value)}
      {member : String × Value} {path : Path} (mem : member ∈ members)
      (comes : Comes shelf link last [] value (some member.2) path) :
      Comes shelf link last trail (.record value) (some (.object members)) (.key member.1 :: path)

section Cycles

variable {shelf : Shelf} {link : Link} {last trail : List Link} {v : Validator} {slot : Slot}
variable {path : Path}

/-- A walk meets only links that its start leads to. -/
theorem Comes.leads {start : Validator} (h : Comes shelf link last trail v slot path)
    (hlinks : ∀ next ∈ v.links, shelf.Leads start next)
    (htrail : ∀ earlier ∈ trail, shelf.Leads start earlier) :
    shelf.Leads start link ∧ ∀ earlier ∈ last, shelf.Leads start earlier := by
  induction h with
  | here => exact ⟨hlinks _ (List.mem_singleton_self _), htrail⟩
  | @follow trail next entry slot path new found comes ih =>
      have hnext : shelf.Leads start next := hlinks _ (List.mem_singleton_self _)
      exact ih (fun other hother => .onward hnext found hother)
        (List.forall_mem_cons.2 ⟨hnext, htrail⟩)
  | branch _ _ ih =>
      refine ih (fun next hnext => hlinks next ?_) htrail
      rw [Validator.links, Validator.mem_linksOfList]
      exact ⟨_, List.mem_append_right _ List.mem_cons_self, hnext⟩
  | lazy _ ih => exact ih hlinks htrail
  | present _ ih => exact ih hlinks htrail
  | @field _ _ _ _ field _ mem _ ih =>
      refine ih (fun next hnext => hlinks next ?_) (List.forall_mem_nil _)
      rw [Validator.links, Validator.mem_linksOfFields]
      exact ⟨field, mem, hnext⟩
  | item _ _ ih => exact ih hlinks (List.forall_mem_nil _)
  | member _ _ ih => exact ih hlinks (List.forall_mem_nil _)

/-- A walk comes no further than a reference, or goes on with what it leads to. -/
theorem comes_reference_iff {target owner : String} {registry : Handle} :
    Comes shelf link last trail (.reference target owner registry) slot path ↔
      (link = ⟨target, owner, registry⟩ ∧ last = trail ∧ path = []) ∨
      (target ∉ trail.map Link.target ∧
        ∃ entry, shelf.follow ⟨target, owner, registry⟩ = .ok entry ∧
          Comes shelf link last (⟨target, owner, registry⟩ :: trail) entry.validator slot path) := by
  constructor
  · intro h
    cases h with
    | here => exact .inl ⟨rfl, rfl, rfl⟩
    | follow new found comes => exact .inr ⟨new, _, found, comes⟩
  · rintro (⟨rfl, rfl, rfl⟩ | ⟨new, entry, found, comes⟩)
    · exact .here
    · exact @Comes.follow _ _ _ _ ⟨target, owner, registry⟩ _ _ _ new found comes

/-- A walk that comes somewhere from a part of a node comes there from the node. -/
theorem Comes.of_part {part : Part} (hpart : part ∈ v.parts slot)
    (h : Comes shelf link last [] part.validator part.slot path) :
    Comes shelf link last trail v slot (part.segment :: path) := by
  cases v with
  | object fields closed =>
      obtain ⟨members, rfl, field, hfield, rfl⟩ := Validator.mem_parts_object_iff.1 hpart
      exact .field hfield h
  | array item =>
      obtain ⟨items, rfl, position, x, hx, rfl⟩ := Validator.mem_parts_array_iff.1 hpart
      exact .item hx h
  | record value =>
      obtain ⟨members, rfl, member, hmember, rfl⟩ := Validator.mem_parts_record_iff.1 hpart
      exact .member hmember h
  | _ => cases hpart

/-- An issue of a check on the spot is no cycle. -/
theorem found_of_mem_checked {ok : Bool} {expected : Expectation} {issue : Issue}
    (h : issue ∈ checked ok expected slot) : issue.found ≠ .referenceCycle := by
  cases ok with
  | true => cases h
  | false =>
      cases List.mem_singleton.1 h
      exact Finding.noConfusion

/-- A cycle that is reported was met at a link whose target the walk had followed since
it last went down. -/
theorem exists_comes_of_mem {issues : List Issue}
    (hwalk : walk shelf (trail.map Link.target) v slot = .ok issues) {issue : Issue}
    (hissue : issue ∈ issues) (hcycle : issue.found = .referenceCycle) :
    ∃ link last, Comes shelf link last trail v slot issue.path ∧
      link.target ∈ last.map Link.target ∧ issue.expected = .reference link.target := by
  generalize hchain : trail.map Link.target = chain at hwalk
  induction chain, v, slot using walk_descent shelf generalizing trail issues issue with
  | any chain slot =>
      rw [walk_any] at hwalk
      cases hwalk
      cases hissue
  | asks chain v slot expected hasks ih =>
      by_cases hadmits : v.admits slot = true
      · obtain ⟨within, hwithin, rfl⟩ := (walk_eq_ok_iff_of_admits hasks hadmits).1 hwalk
        rcases List.mem_append.1 hissue with hinside | hstray
        · obtain ⟨part, hpart, found, hfound, inner, hinner, rfl⟩ :=
            exists_of_mem_walkParts hwithin hinside
          obtain ⟨link, last, hcomes, hlast⟩ := @ih part hpart [] _ _ hinner hcycle rfl hfound
          exact ⟨link, last, hcomes.of_part hpart, hlast⟩
        · obtain ⟨_, _, -, -, member, -, -, rfl⟩ := Validator.mem_strays_iff.1 hstray
          cases hcycle
      · rw [walk_of_asks hasks, if_neg hadmits] at hwalk
        cases hwalk
        cases List.mem_singleton.1 hissue
        cases hcycle
  | union chain branches slot ih =>
      -- what was found in a branch is dropped
      rw [walk, bind_eq_ok_iff] at hwalk
      obtain ⟨fits, -, hwalk⟩ := hwalk
      cases hwalk
      exact absurd hcycle (found_of_mem_checked hissue)
  | lazy chain label child slot ih =>
      rw [walk] at hwalk
      obtain ⟨link, last, hcomes, hlast⟩ := ih hissue hcycle hchain hwalk
      exact ⟨link, last, .lazy hcomes, hlast⟩
  | cycle chain target owner registry slot h =>
      subst hchain
      rw [walk_cycle h] at hwalk
      cases hwalk
      cases List.mem_singleton.1 hissue
      exact ⟨⟨target, owner, registry⟩, trail, comes_reference_iff.2 (.inl ⟨rfl, rfl, rfl⟩), h, rfl⟩
  | broken chain target owner registry slot cause hnew h =>
      rw [walk_broken hnew h] at hwalk
      cases hwalk
  | follow chain target owner registry slot entry hnew h ih =>
      subst hchain
      rw [walk_follow hnew h] at hwalk
      obtain ⟨link, last, hcomes, hlast⟩ :=
        @ih (⟨target, owner, registry⟩ :: trail) _ _ hissue hcycle rfl hwalk
      exact ⟨link, last, comes_reference_iff.2 (.inr ⟨hnew, entry, h, hcomes⟩), hlast⟩
  | absent chain inner =>
      rw [walk] at hwalk
      cases hwalk
      cases hissue
  | present chain inner x ih =>
      rw [walk] at hwalk
      obtain ⟨link, last, hcomes, hlast⟩ := ih hissue hcycle hchain hwalk
      exact ⟨link, last, .present hcomes, hlast⟩

/-- Where names tell entries apart, a walk that comes to a target which it has followed
since it last went down has entered that entry. -/
theorem Comes.exists_sameEntry {start : Validator} (hnames : shelf.TellsApart start)
    (h : Comes shelf link last [] start slot path) (hmet : link.target ∈ last.map Link.target) :
    ∃ earlier ∈ last, earlier.SameEntry link := by
  obtain ⟨hlink, hlast⟩ := h.leads (fun next => .start) (List.forall_mem_nil _)
  obtain ⟨earlier, hearlier, htarget⟩ := List.mem_map.1 hmet
  exact ⟨earlier, hearlier, htarget, hnames earlier link (hlast earlier hearlier) hlink htarget⟩

/-- If no name is looked up through two handles, in whichever sets the walk goes round, a
cycle is reported only where an entry would be entered for the second time without going
down in between, and a branch is given up as a cycle only there.  And where the walk of
an empty slot comes to its end, the search for absence has the same answer. -/
theorem cycle_revisits (hnames : shelf.TellsApart v) :
    (∀ slot report, v.validateSlot shelf slot = .ok report →
      ∀ issue ∈ report.issues, issue.found = .referenceCycle →
        ∃ link last, Comes shelf link last [] v slot issue.path ∧
          issue.expected = .reference link.target ∧ ∃ earlier ∈ last, earlier.SameEntry link) ∧
    (∀ slot path link last, Comes shelf link last [] v slot path →
      link.target ∈ last.map Link.target → ∃ earlier ∈ last, earlier.SameEntry link) ∧
    ∀ b, v.acceptsSlot shelf none = .ok b → v.mayBeAbsent shelf = b := by
  refine ⟨?_, ?_, ?_⟩
  · intro slot report hreport issue hissue hcycle
    obtain ⟨link, last, hcomes, hmet, hexpected⟩ :=
      @exists_comes_of_mem _ [] _ _ _ (validateSlot_eq_ok_iff.1 hreport) _ hissue hcycle
    exact ⟨link, last, hcomes, hexpected, hcomes.exists_sameEntry hnames hmet⟩
  · intro slot path link last hcomes hmet
    exact hcomes.exists_sameEntry hnames hmet
  · intro b haccepts
    exact hnames.resolves.mayBeAbsent_eq_of_acceptsSlot (fun link => .start) haccepts

end Cycles

/-- A gate to a road, and the road back to the gate, in two sets. -/
def roundTrip : Shelf :=
  (({} : Shelf).put 0 (.ofValidators [("gate", .lazy none (.reference "road" "gate" (.ofSet 1)))])).put
    1 (.ofValidators [("road", .reference "gate" "road" (.ofSet 0))])

theorem roundTrip_tellsApart :
    roundTrip.TellsApart (.reference "gate" "road" (.ofSet 0)) := by
  have hgate : roundTrip.follow ⟨"gate", "road", .ofSet 0⟩ =
      .ok (Entry.of "gate" (.lazy none (.reference "road" "gate" (.ofSet 1)))) := rfl
  have hroad : roundTrip.follow ⟨"road", "gate", .ofSet 1⟩ =
      .ok (Entry.of "road" (.reference "gate" "road" (.ofSet 0))) := rfl
  have hleads : ∀ link, roundTrip.Leads (.reference "gate" "road" (.ofSet 0)) link →
      link = ⟨"gate", "road", .ofSet 0⟩ ∨ link = ⟨"road", "gate", .ofSet 1⟩ := by
    intro link hlink
    induction hlink with
    | start mem => exact .inl (List.mem_singleton.1 mem)
    | onward _ found mem ih =>
        rcases ih with rfl | rfl
        · rw [hgate, Except.ok.injEq] at found
          subst found
          exact .inr (List.mem_singleton.1 mem)
        · rw [hroad, Except.ok.injEq] at found
          subst found
          exact .inl (List.mem_singleton.1 mem)
  intro first second hfirst hsecond htarget
  rcases hleads first hfirst with rfl | rfl <;> rcases hleads second hsecond with rfl | rfl <;>
    simp_all

/-- The way round through two sets is reported as a cycle, and is one. -/
theorem cycle_revisits_roundTrip :
    let gate := Validator.reference "gate" "road" (.ofSet 0)
    (∃ link last, Comes roundTrip link last [] gate (some .null) [] ∧
      Expectation.reference "gate" = .reference link.target ∧
        ∃ earlier ∈ last, earlier.SameEntry link) ∧
    gate.acceptsSlot roundTrip none = .ok false ∧ gate.mayBeAbsent roundTrip = false := by
  intro gate
  obtain ⟨hcycles, -, habsence⟩ := cycle_revisits roundTrip_tellsApart
  have hreport : gate.validateSlot roundTrip (some .null) =
      .ok ⟨[⟨[], .reference "gate", .referenceCycle⟩]⟩ := by cbv
  have haccepts : gate.acceptsSlot roundTrip none = .ok false := by cbv
  exact ⟨hcycles _ _ hreport _ List.mem_cons_self rfl, haccepts, habsence _ haccepts⟩

/-- Either of two entries "Y". -/
def eitherY : Validator := .union [.reference "Y" "S" (.ofSet 0), .reference "Y" "S" (.ofSet 1)]

/-- Two sets that share names, one of which refers to the other's. -/
def firstNamesakes : CompiledSet :=
  .ofValidators [("R", .reference "X" "R" (.ofSet 0)), ("S", eitherY),
    ("X", .reference "X" "X" (.ofSet 1)), ("Y", .string)]

def secondNamesakes : CompiledSet :=
  .ofValidators [("X", .string), ("Y", .optional .string)]

/-- Both sets in use, and a third with an entry that refers to its own name through a
handle that resolves nothing. -/
def namesakes : Shelf :=
  ((({} : Shelf).put 2 (.ofValidators [("X", .reference "X" "X" .detached)])).put 1
    secondNamesakes).put 0 firstNamesakes

/-- All references of two sets that share names resolve.  Yet a text under "R" is reported
to be a cycle, at a reference to an entry that was never entered, and "S" takes an empty
slot although the search says that it may not be absent.  In the same way a reference that
resolves nothing is no error but a cycle once its name was followed. -/
theorem cycle_namesakes :
    (∀ entry ∈ firstNamesakes.entries ++ secondNamesakes.entries,
      ∀ link ∈ entry.2.validator.links, (namesakes.follow link).toOption.isSome = true) ∧
    ((Validator.reference "X" "R" (.ofSet 0)).validateSlot namesakes (some (.string "x")) =
        .ok ⟨[⟨[], .reference "X", .referenceCycle⟩]⟩ ∧
      ∀ link last, Comes namesakes link last [] (.reference "X" "R" (.ofSet 0))
        (some (.string "x")) [] → ¬∃ earlier ∈ last, earlier.SameEntry link) ∧
    (eitherY.acceptsSlot namesakes none = .ok true ∧ eitherY.mayBeAbsent namesakes = false) ∧
    (Validator.reference "X" "X" .detached).validateSlot namesakes (some (.string "x")) =
        .error (.unavailable "X") ∧
      (Validator.reference "X" "R" (.ofSet 2)).validateSlot namesakes (some (.string "x")) =
        .ok ⟨[⟨[], .reference "X", .referenceCycle⟩]⟩ := by
  refine ⟨by decide, ⟨by cbv, ?_⟩, ⟨by cbv, by cbv⟩, by cbv, by cbv⟩
  have hfirst : namesakes.follow ⟨"X", "R", .ofSet 0⟩ =
      .ok (Entry.of "X" (.reference "X" "X" (.ofSet 1))) := rfl
  intro link last hcomes hrevisited
  obtain ⟨earlier, hearlier, hsame⟩ := hrevisited
  rcases comes_reference_iff.1 hcomes with ⟨-, rfl, -⟩ | ⟨-, entry, hentry, hcomes⟩
  · cases hearlier
  · rw [hfirst, Except.ok.injEq] at hentry
    subst hentry
    rcases comes_reference_iff.1 hcomes with ⟨rfl, rfl, -⟩ | ⟨hnew, -⟩
    · rw [List.mem_singleton.1 hearlier] at hsame
      exact absurd hsame.registry (by decide)
    · exact hnew List.mem_cons_self

end SchemaSets
