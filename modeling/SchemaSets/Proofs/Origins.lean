import SchemaSets.Proofs.Bare
import SchemaSets.Proofs.Composition
import SchemaSets.Proofs.Indirection

/-!
# Where issues come from

A walk visits slots.  From one visit to the next it goes down a step of the value, or it stays
at the slot and looks at it with another validator (`Visit.ReachedFrom`).  Each visit raises at
most issues of its own (`Visit.Raises`), and the issues of a walk are those that some visit
raises, seen from the slot where the walk began (`mem_walk_iff_finds`).  The branches of a union
are not visited: what is found in them is no issue of the walk.

The path of an issue therefore leads somewhere: it can be followed through the value
(`Slot.follow?`) to the slot that was visited, and an issue says what stands there
(`issues_describe_their_slots`).

## Main results

* `mem_walk_iff_finds` — the issues of a walk and the visits that raise them.
* `issues_describe_their_slots` — what stands at the end of the path of an issue.
-/

namespace SchemaSets

/-! ## Values in key order -/

namespace Value

mutual
/-- Every object of a value lists its members in key order. -/
def Ordered : Value → Prop
  | .array items => OrderedItems items
  | .object members => Keyed.Sorted members ∧ OrderedMembers members
  | _ => True
/-- Every object in a sequence of values lists its members in key order. -/
def OrderedItems : List Value → Prop
  | [] => True
  | x :: rest => Ordered x ∧ OrderedItems rest
/-- Every object among the members lists its members in key order. -/
def OrderedMembers : List (String × Value) → Prop
  | [] => True
  | (_, x) :: rest => Ordered x ∧ OrderedMembers rest
end

theorem orderedItems_iff {items : List Value} :
    OrderedItems items ↔ ∀ x ∈ items, x.Ordered := by
  induction items with
  | nil => simp [OrderedItems]
  | cons x rest ih => simp [OrderedItems, ih]

theorem orderedMembers_iff {members : List (String × Value)} :
    OrderedMembers members ↔ ∀ member ∈ members, member.2.Ordered := by
  induction members with
  | nil => simp [OrderedMembers]
  | cons member rest ih =>
      obtain ⟨key, x⟩ := member
      simp [OrderedMembers, ih]

end Value

namespace Slot

/-- What a slot holds is in key order. -/
def Ordered (slot : Slot) : Prop := ∀ x, slot = some x → x.Ordered

/-! ## Following a path -/

/-- The slot that a step leads to.  An item has to be there and a record value as well; an
attribute of an object may be absent. -/
def step? : Slot → Segment → Option Slot
  | some (.object members), .field name => some (Keyed.find? name members)
  | some (.array items), .index position => (items[position]?).map some
  | some (.object members), .key name => (Keyed.find? name members).map some
  | _, _ => none

/-- The slot at the end of a path.  From where nothing is no step leads on, so only the last step
may be to an attribute that is absent. -/
def follow? (slot : Slot) : Path → Option Slot
  | [] => some slot
  | segment :: path => (slot.step? segment).bind fun next => follow? next path

/-- A path is followed part by part. -/
theorem follow?_append (slot : Slot) (path more : Path) :
    slot.follow? (path ++ more) = (slot.follow? path).bind fun next => next.follow? more := by
  induction path generalizing slot with
  | nil => rfl
  | cons segment path ih =>
      rw [List.cons_append, follow?, follow?, Option.bind_assoc]
      exact congrArg _ (funext ih)

/-- The step to a part leads to it. -/
theorem step?_of_mem_parts {slot : Slot} {v : Validator} {part : Part} (hslot : slot.Ordered)
    (h : part ∈ v.parts slot) :
    slot.step? part.segment = some part.slot ∧ part.slot.Ordered := by
  cases v with
  | object fields closed =>
      obtain ⟨members, rfl, field, -, rfl⟩ := Validator.mem_parts_object_iff.1 h
      refine ⟨rfl, fun x hx => ?_⟩
      exact Value.orderedMembers_iff.1 (hslot _ rfl).2 _ (Keyed.mem_of_find? hx)
  | array item =>
      obtain ⟨items, rfl, position, x, hx, rfl⟩ := Validator.mem_parts_array_iff.1 h
      refine ⟨by rw [step?, hx, Option.map_some], ?_⟩
      rintro _ ⟨⟩
      exact Value.orderedItems_iff.1 (hslot _ rfl) x (List.mem_of_getElem? hx)
  | record value =>
      obtain ⟨members, rfl, member, hmember, rfl⟩ := Validator.mem_parts_record_iff.1 h
      obtain ⟨hsorted, heach⟩ := hslot _ rfl
      refine ⟨by rw [step?, Keyed.find?_of_mem hsorted hmember, Option.map_some], ?_⟩
      rintro _ ⟨⟩
      exact Value.orderedMembers_iff.1 heach member hmember
  | _ => cases h

end Slot

/-! ## Visits -/

/-- A walk at a slot: what the slot is checked against, and the names that were followed since the
walk last went down. -/
structure Visit where
  chain : List String
  validator : Validator
  slot : Slot

/-- A walk that begins with one visit comes to another, at the end of a path.  It comes to no
branch of a union. -/
inductive Visit.ReachedFrom (shelf : Shelf) (last : Visit) : Visit → Path → Prop
  | here : ReachedFrom shelf last last []
  | lazy {chain : List String} {label : Option String} {child : Validator} {slot : Slot}
      {path : Path} (reached : ReachedFrom shelf last ⟨chain, child, slot⟩ path) :
      ReachedFrom shelf last ⟨chain, .lazy label child, slot⟩ path
  | present {chain : List String} {inner : Validator} {x : Value} {path : Path}
      (reached : ReachedFrom shelf last ⟨chain, inner, some x⟩ path) :
      ReachedFrom shelf last ⟨chain, .optional inner, some x⟩ path
  | follow {chain : List String} {target owner : String} {registry : Handle} {entry : Entry}
      {slot : Slot} {path : Path} (new : target ∉ chain)
      (found : shelf.resolve registry target owner = .ok entry)
      (reached : ReachedFrom shelf last ⟨target :: chain, entry.validator, slot⟩ path) :
      ReachedFrom shelf last ⟨chain, .reference target owner registry, slot⟩ path
  | down {chain : List String} {v : Validator} {slot : Slot} {part : Part} {path : Path}
      (mem : part ∈ v.parts slot)
      (reached : ReachedFrom shelf last ⟨[], part.validator, part.slot⟩ path) :
      ReachedFrom shelf last ⟨chain, v, slot⟩ (part.segment :: path)

/-- An issue that a visit raises, other than through the visits that it leads to. -/
inductive Visit.Raises (shelf : Shelf) : Visit → Issue → Prop
  | mismatch {chain : List String} {v : Validator} {slot : Slot} {expected : Expectation}
      (asks : v.asks? = some expected) (refused : v.admits slot = false) :
      Raises shelf ⟨chain, v, slot⟩ (Issue.here expected slot)
  | unlisted {chain : List String} {fields : List (String × Validator)}
      {members : List (String × Value)} {member : String × Value} (mem : member ∈ members)
      (new : member.1 ∉ Keyed.keys fields) :
      Raises shelf ⟨chain, .object fields true, some (.object members)⟩
        ⟨[.field member.1], .noSuchAttribute, .unexpectedAttribute⟩
  | noBranch {chain : List String} {branches : List Validator} {slot : Slot}
      (rejected : ∀ branch ∈ branches, Rejects shelf chain branch slot) :
      Raises shelf ⟨chain, .union branches, slot⟩ (Issue.here (.oneBranchOf branches.length) slot)
  | cycle {chain : List String} {target owner : String} {registry : Handle} {slot : Slot}
      (met : target ∈ chain) :
      Raises shelf ⟨chain, .reference target owner registry, slot⟩
        ⟨[], .reference target, .referenceCycle⟩

/-- An issue was raised by a visit that a walk comes to. -/
def Visit.Finds (shelf : Shelf) (start : Visit) (issue : Issue) : Prop :=
  ∃ path last own, ReachedFrom shelf last start path ∧ Raises shelf last own ∧
    own.behind path = issue

namespace Visit

section Reached

variable {shelf : Shelf} {start last : Visit} {path : Path} {issue : Issue}

/-- The path of a visit leads to its slot, which is in key order. -/
theorem ReachedFrom.follow?_eq (h : last.ReachedFrom shelf start path)
    (hslot : start.slot.Ordered) :
    start.slot.follow? path = some last.slot ∧ last.slot.Ordered := by
  induction h with
  | here => exact ⟨rfl, hslot⟩
  | lazy _ ih => exact ih hslot
  | present _ ih => exact ih hslot
  | follow _ _ _ ih => exact ih hslot
  | down mem _ ih =>
      obtain ⟨hstep, hpart⟩ := Slot.step?_of_mem_parts hslot mem
      rw [Slot.follow?, hstep]
      exact ih hpart

/-- What a visit raises is found by a walk that begins with it. -/
theorem Raises.finds (h : start.Raises shelf issue) : start.Finds shelf issue :=
  ⟨[], start, issue, .here, h, rfl⟩

/-- What is found in a part is found below the step to it. -/
theorem Finds.down {chain : List String} {v : Validator} {slot : Slot} {part : Part}
    (hpart : part ∈ v.parts slot) (h : Finds shelf ⟨[], part.validator, part.slot⟩ issue) :
    Finds shelf ⟨chain, v, slot⟩ (issue.under part.segment) := by
  obtain ⟨path, last, own, hreached, hraises, rfl⟩ := h
  exact ⟨_, last, own, .down hpart hreached, hraises, rfl⟩

/-- What is found without a step is found at the same place. -/
theorem Finds.stay {next : Visit} (h : next.Finds shelf issue)
    (hstep : ∀ {last path}, ReachedFrom shelf last next path → ReachedFrom shelf last start path) :
    start.Finds shelf issue := by
  obtain ⟨path, last, own, hreached, hraises, rfl⟩ := h
  exact ⟨path, last, own, hstep hreached, hraises, rfl⟩

/-- Where a walk that begins with a visit comes to its end, what the visit raises is among the
issues. -/
theorem Raises.mem (h : start.Raises shelf issue) {issues : List Issue}
    (hwalk : walk shelf start.chain start.validator start.slot = .ok issues) : issue ∈ issues := by
  cases h with
  | mismatch asks refused =>
      rw [walk_of_asks asks, if_neg (by simp [refused])] at hwalk
      cases hwalk
      exact List.mem_singleton_self _
  | unlisted mem new =>
      obtain ⟨found, -, rfl⟩ := (walk_eq_ok_iff_of_admits rfl rfl).1 hwalk
      refine List.mem_append_right _ (Validator.mem_strays_iff.2 ?_)
      exact ⟨_, _, rfl, rfl, _, mem, new, rfl⟩
  | noBranch rejected =>
      rw [walk, walkBranches_eq_false_iff.2 rejected] at hwalk
      cases hwalk
      exact List.mem_singleton_self _
  | cycle met =>
      rw [walk_cycle met] at hwalk
      cases hwalk
      exact List.mem_singleton_self _

end Reached

end Visit

section Walks

variable {shelf : Shelf} {issues : List Issue} {issue : Issue}

/-- What a visit raises that a walk comes to is among the issues of the walk. -/
theorem Visit.ReachedFrom.mem {start last : Visit} {path : Path} {own : Issue}
    (h : last.ReachedFrom shelf start path) (hraises : last.Raises shelf own)
    (hwalk : walk shelf start.chain start.validator start.slot = .ok issues) :
    own.behind path ∈ issues := by
  induction h generalizing issues with
  | here => exact hraises.mem hwalk
  | lazy _ ih =>
      rw [walk] at hwalk
      exact ih hwalk
  | present _ ih =>
      rw [walk] at hwalk
      exact ih hwalk
  | follow new found _ ih =>
      rw [walk_follow new found] at hwalk
      exact ih hwalk
  | down mem _ ih =>
      obtain ⟨⟨expected, hasks⟩, hadmits⟩ := Validator.asks_of_mem_parts mem
      obtain ⟨found, hfound, rfl⟩ := (walk_eq_ok_iff_of_admits hasks hadmits).1 hwalk
      obtain ⟨within, hwithin, hunder⟩ := exists_of_walkParts_eq_ok hfound mem
      exact List.mem_append_left _ (hunder _ (ih hwithin))

/-- The issues of a walk that comes to its end are those that visits raise. -/
theorem mem_walk_iff_finds {chain : List String} {v : Validator} {slot : Slot}
    (hwalk : walk shelf chain v slot = .ok issues) :
    issue ∈ issues ↔ Visit.Finds shelf ⟨chain, v, slot⟩ issue := by
  constructor
  · intro hissue
    induction chain, v, slot using walk_descent shelf generalizing issues issue with
    | any chain slot =>
        rw [walk_any] at hwalk
        cases hwalk
        cases hissue
    | asks chain v slot expected hasks ih =>
        cases hadmits : v.admits slot with
        | true =>
            obtain ⟨found, hfound, rfl⟩ := (walk_eq_ok_iff_of_admits hasks hadmits).1 hwalk
            rcases List.mem_append.1 hissue with hinside | hstray
            · obtain ⟨part, hpart, within, hwithin, inner, hinner, rfl⟩ :=
                exists_of_mem_walkParts hfound hinside
              exact (ih part hpart hwithin hinner).down hpart
            · obtain ⟨fields, members, rfl, rfl, member, hmember, hnew, rfl⟩ :=
                Validator.mem_strays_iff.1 hstray
              exact (Visit.Raises.unlisted hmember hnew).finds
        | false =>
            rw [walk_of_asks hasks, if_neg (by simp [hadmits])] at hwalk
            cases hwalk
            cases List.mem_singleton.1 hissue
            exact (Visit.Raises.mismatch hasks hadmits).finds
    | union chain branches slot ih =>
        -- what was found in a branch is dropped
        rw [walk, bind_eq_ok_iff] at hwalk
        obtain ⟨fits, hfits, hwalk⟩ := hwalk
        cases fits with
        | true =>
            cases hwalk
            cases hissue
        | false =>
            cases hwalk
            cases List.mem_singleton.1 hissue
            exact (Visit.Raises.noBranch (walkBranches_eq_false_iff.1 hfits)).finds
    | lazy chain label child slot ih =>
        rw [walk] at hwalk
        exact (ih hwalk hissue).stay .lazy
    | cycle chain target owner registry slot h =>
        rw [walk_cycle h] at hwalk
        cases hwalk
        cases List.mem_singleton.1 hissue
        exact (Visit.Raises.cycle h).finds
    | broken chain target owner registry slot cause hnew h =>
        rw [walk_broken hnew h] at hwalk
        cases hwalk
    | follow chain target owner registry slot entry hnew h ih =>
        rw [walk_follow hnew h] at hwalk
        exact (ih hwalk hissue).stay (.follow hnew h)
    | absent chain inner =>
        rw [walk] at hwalk
        cases hwalk
        cases hissue
    | present chain inner x ih =>
        rw [walk] at hwalk
        exact (ih hwalk hissue).stay .present
  · rintro ⟨path, last, own, hreached, hraises, rfl⟩
    exact hreached.mem hraises hwalk

end Walks

/-! ## What issues say -/

/-- No value is described by a word that begins like the words for what is not there or should not
be. -/
theorem Value.head?_summary_ne (x : Value) : x.summary.toList.head? ≠ some 'u' := by
  cases x <;> simp [Value.summary, Value.kind]

namespace Slot

/-- Only what is not there is described as undefined. -/
theorem summary_eq_undefined_iff {slot : Slot} : slot.summary = "undefined" ↔ slot = none := by
  cases slot with
  | none => simp [Slot.summary]
  | some x =>
      have hhead := x.head?_summary_ne
      refine ⟨fun h => absurd ?_ hhead, fun h => by cases h⟩
      rw [show x.summary = "undefined" from h]
      rfl

/-- No slot is described like an attribute that should not be there. -/
theorem summary_ne_unexpectedAttribute (slot : Slot) :
    slot.summary ≠ Finding.unexpectedAttribute.text := by
  cases slot with
  | none => decide
  | some x =>
      intro h
      apply x.head?_summary_ne
      rw [show x.summary = Finding.unexpectedAttribute.text from h]
      rfl

end Slot

/-- What a visit raises is about its slot, a cycle, or a member that is not listed. -/
theorem Visit.Raises.cases_found {shelf : Shelf} {visit : Visit} {issue : Issue}
    (h : visit.Raises shelf issue) :
    (issue.path = [] ∧ issue.found = .slot visit.slot) ∨
    (issue.path = [] ∧ issue.found = .referenceCycle) ∨
    (issue.found = .unexpectedAttribute ∧ ∃ chain fields members, ∃ member ∈ members,
      visit = ⟨chain, .object fields true, some (.object members)⟩ ∧
      member.1 ∉ Keyed.keys fields ∧ issue.path = [.field member.1]) := by
  cases h with
  | mismatch asks refused => exact .inl ⟨rfl, rfl⟩
  | unlisted mem new => exact .inr (.inr ⟨rfl, _, _, _, _, mem, rfl, new, rfl⟩)
  | noBranch rejected => exact .inl ⟨rfl, rfl⟩
  | cycle met => exact .inr (.inl ⟨rfl, rfl⟩)

/-- A report on a compiled set is on issues that a walk of some compiled element finds. -/
theorem SchemaSet.exists_walk_of_check {set : SchemaSet} {settings : CompilerSettings}
    {registry : Handle} {shelf : Shelf} {name : String} {slot : Slot} {report : Report}
    (hcheck : (set.compile settings registry).check shelf name slot = .ok report) :
    ∃ e, set.get? name = some e ∧
      walk shelf [] (e.compile settings.unknownAttributes name registry) slot =
        .ok report.issues := by
  cases hentry : (set.compile settings registry).get? name with
  | none =>
      rw [CompiledSet.check, CompiledSet.entry, hentry] at hcheck
      cases hcheck
  | some entry =>
      obtain ⟨e, he, rfl⟩ := exists_of_get?_compile hentry
      exact ⟨e, he, validateSlot_eq_ok_iff.1 ((check_eq_ok_iff hentry).1 hcheck)⟩

/-- The issues of a report are those that the visits of the walk raise, and the walk visits no
branch of a union.  The path of an issue can be followed from the slot that was checked.  Where it
ends stands what the issue says was found, `undefined` if and only if nothing is there; unless the
issue is about a cycle, or about an attribute that was not expected.  Such an attribute is there,
and the object around it was checked against a closed object validator that does not list it. -/
theorem issues_describe_their_slots {set : SchemaSet} {settings : CompilerSettings}
    {registry : Handle} {shelf : Shelf} {name : String} {slot : Slot} {report : Report}
    (hslot : slot.Ordered)
    (hcheck : (set.compile settings registry).check shelf name slot = .ok report) :
    ∃ e, set.get? name = some e ∧
      let start : Visit := ⟨[], e.compile settings.unknownAttributes name registry, slot⟩
      (∀ issue, issue ∈ report.issues ↔ start.Finds shelf issue) ∧
      ∀ issue ∈ report.issues, ∃ reached, slot.follow? issue.path = some reached ∧
        (issue.found.text ≠ "reference cycle" → issue.found.text ≠ "unexpected attribute" →
          issue.found.text = reached.summary ∧
            (issue.found.text = "undefined" ↔ reached = none)) ∧
        (issue.found.text = "unexpected attribute" →
          ∃ parent chain fields members key x,
            Visit.ReachedFrom shelf ⟨chain, .object fields true, some (.object members)⟩ start
              parent ∧
            slot.follow? parent = some (some (.object members)) ∧
            issue.path = parent ++ [.field key] ∧ key ∉ Keyed.keys fields ∧
            Keyed.find? key members = some x ∧ reached = some x) := by
  obtain ⟨e, he, hwalk⟩ := SchemaSet.exists_walk_of_check hcheck
  refine ⟨e, he, fun issue => mem_walk_iff_finds hwalk, fun issue hissue => ?_⟩
  obtain ⟨path, last, own, hreached, hraises, rfl⟩ := (mem_walk_iff_finds hwalk).1 hissue
  obtain ⟨hfollow, hlast⟩ := hreached.follow?_eq hslot
  have hbehind : (own.behind path).path = path ++ own.path := rfl
  have hsame : (own.behind path).found = own.found := rfl
  rw [hbehind, hsame, Slot.follow?_append, hfollow, Option.bind_some]
  rcases hraises.cases_found with ⟨hpath, hfound⟩ | ⟨hpath, hfound⟩ |
    ⟨hfound, chain, fields, members, member, hmember, rfl, hnew, hpath⟩
  · rw [hpath, hfound]
    refine ⟨last.slot, rfl, fun _ _ => ⟨rfl, Slot.summary_eq_undefined_iff⟩, fun h => ?_⟩
    exact absurd h (Slot.summary_ne_unexpectedAttribute _)
  · rw [hpath, hfound]
    exact ⟨last.slot, rfl, fun h => absurd rfl h, fun h => absurd h (by decide)⟩
  · have hmembers : Keyed.find? member.1 members = some member.2 :=
      Keyed.find?_of_mem (hlast _ rfl).1 hmember
    rw [hpath, hfound]
    refine ⟨Keyed.find? member.1 members, rfl, fun _ h => absurd rfl h, fun _ => ?_⟩
    exact ⟨path, chain, fields, members, member.1, member.2, hreached, hfollow, rfl, hnew, hmembers,
      hmembers⟩

/-- Benches with tools that are ours or belong to an entry which refers to itself. -/
def workshop : SchemaSet :=
  .ofList [("bench", .object [("lamp", .simple .boolean false),
      ("tools", .array (.reference "tool" false) false)] false),
    ("owner", .reference "owner" false),
    ("tool", .object [("owner", .union [.reference "owner" false, .literal "us" false] false)]
      false)]

def workshopShelf : Shelf := ({} : Shelf).put 0 (workshop.compile ⟨.reject⟩ (.ofSet 0))

/-- A bench without a lamp and with somebody's rusty tool. -/
def bench : Value :=
  .object [("tools", .array [.object [("owner", .string "them"), ("rust", .null)]])]

def benchIssues : List Issue :=
  [⟨[.field "lamp"], .boolean, .slot none⟩,
    ⟨[.field "tools", .index 0, .field "owner"], .oneBranchOf 2, .slot (some (.string "them"))⟩,
    ⟨[.field "tools", .index 0, .field "rust"], .noSuchAttribute, .unexpectedAttribute⟩]

set_option maxRecDepth 4000 in
theorem check_bench :
    (workshop.compile ⟨.reject⟩ (.ofSet 0)).check workshopShelf "bench" (some bench) =
      .ok ⟨benchIssues⟩ := by cbv

/-- The path of the first issue ends where no lamp is, that of the last at an attribute of the tool.
The cycle behind an owner is no issue, since it is met in a branch. -/
theorem issues_describe_their_slots_bench :
    Slot.Ordered (some bench) ∧
    (workshop.compile ⟨.reject⟩ (.ofSet 0)).check workshopShelf "bench" (some bench) =
      .ok ⟨benchIssues⟩ ∧
    ∃ e, workshop.get? "bench" = some e ∧
      let start : Visit := ⟨[], e.compile .reject "bench" (.ofSet 0), some bench⟩
      (∀ issue, issue.found = .referenceCycle → ¬start.Finds workshopShelf issue) ∧
      Slot.follow? (some bench) [.field "lamp"] = some none ∧
      ∃ chain fields members, Visit.ReachedFrom workshopShelf
        ⟨chain, .object fields true, some (.object members)⟩ start [.field "tools", .index 0] ∧
        "rust" ∉ Keyed.keys fields := by
  have hordered : Slot.Ordered (some bench) := by
    rintro _ ⟨⟩
    simp only [bench, Value.Ordered, Value.OrderedMembers, Value.OrderedItems, Keyed.Sorted]
    decide
  obtain ⟨e, he, hfinds, hslots⟩ := issues_describe_their_slots hordered check_bench
  obtain ⟨reached, hfollow, hfound, -⟩ := hslots ⟨[.field "lamp"], .boolean, .slot none⟩
    (by simp [benchIssues])
  obtain ⟨_, -, -, hrust⟩ := hslots ⟨[.field "tools", .index 0, .field "rust"],
    .noSuchAttribute, .unexpectedAttribute⟩ (by simp [benchIssues])
  obtain ⟨parent, chain, fields, members, key, x, hreached, -, hpath, hnew, -, -⟩ := hrust rfl
  refine ⟨hordered, check_bench, e, he, fun issue hcycle hissue => ?_, ?_, ?_⟩
  · have hmem := (hfinds issue).2 hissue
    simp only [benchIssues, List.mem_cons, List.not_mem_nil, or_false] at hmem
    rcases hmem with rfl | rfl | rfl <;> cases hcycle
  · obtain rfl : reached = none := (hfound (by decide) (by decide)).2.1 rfl
    exact hfollow
  · have hends : [.field "tools", .index 0] ++ [Segment.field "rust"] = parent ++ [.field key] :=
      hpath
    obtain ⟨rfl, hkey⟩ := List.append_inj' hends rfl
    cases hkey
    exact ⟨chain, fields, members, hreached, hnew⟩

end SchemaSets
