import SchemaSets.Proofs.Delimited
import SchemaSets.Proofs.Mappings
import SchemaSets.Proofs.Origins

/-!
# One issue at a location

The issues of a report are spread over the value: of two of them, neither stands where the
other stands nor below it (`Spread`).  A visit raises one issue at its slot and goes no further, or
it goes down steps that all differ; so this is an induction along the walk, with the steps to the
parts of a node as its only concern (`spread_of_walk`).

A path in words is to be read back.  A quoted key shows where it ends, and so does a
position, but a field is written as it is and ends where the next step begins.  Where field names
have neither of the two characters that begin a step, paths with the same words are equal
(`Path.eq_of_text_eq`).

## Main results

* `spread_of_walk` — the issues of a walk do not meet.
* `Path.eq_of_text_eq` — paths are told apart by their texts.
* `issues_stand_apart` — at most one issue at a location.
-/

namespace SchemaSets

/-! ## Paths in words -/

/-- A name that shows where it ends in front of a step. -/
def PlainName (name : String) : Prop := ∀ c ∈ name.toList, c ≠ '.' ∧ c ≠ '['

instance : DecidablePred PlainName := fun name =>
  List.decidableBAll (fun c => c ≠ '.' ∧ c ≠ '[') name.toList

namespace Segment

/-- Fields have plain names; keys may have any. -/
def Plain : Segment → Prop
  | .field name => PlainName name
  | .index _ | .key _ => True

/-- A text that begins like a step. -/
def Begins (rest : List Char) : Prop := ∃ c tail, rest = c :: tail ∧ ¬(c ≠ '.' ∧ c ≠ '[')

theorem toList_text_field (name : String) : (field name).text.toList = '.' :: name.toList := by
  simp [text]

theorem toList_text_index (position : Nat) :
    (index position).text.toList = '[' :: (Nat.toDigits 10 position ++ [']']) := by
  simp [text]

theorem toList_text_key (name : String) :
    (key name).text.toList = '[' :: ((Text.quote name).toList ++ [']']) := by
  simp [text]

/-- Every step begins like one. -/
theorem begins_text (step : Segment) (rest : List Char) : Begins (step.text.toList ++ rest) := by
  cases step with
  | field name => exact ⟨'.', _, by rw [toList_text_field]; rfl, by decide⟩
  | index position => exact ⟨'[', _, by rw [toList_text_index]; rfl, by decide⟩
  | key name => exact ⟨'[', _, by rw [toList_text_key]; rfl, by decide⟩

/-- The digits of a position do not begin like a quoted key. -/
theorem toDigits_append_ne_quote (position : Nat) (name : String) (rest more : List Char) :
    Nat.toDigits 10 position ++ rest ≠ (Text.quote name).toList ++ more := by
  intro h
  cases hdigits : Nat.toDigits 10 position with
  | nil => exact absurd hdigits Nat.toDigits_ne_nil
  | cons c digits =>
      have hdigit : c.isDigit = true :=
        Nat.isDigit_of_mem_toDigits (by decide) (by decide) (hdigits ▸ List.mem_cons_self)
      rw [hdigits] at h
      simp only [Text.quote, String.toList_ofList, List.cons_append, List.cons.injEq] at h
      rw [h.1] at hdigit
      exact absurd hdigit (by decide)

/-- In front of another step, a step shows where it ends. -/
theorem text_append_inj {step other : Segment} (hstep : step.Plain) (hother : other.Plain)
    {rest more : List Char} (hrest : Begins rest) (hmore : Begins more)
    (h : step.text.toList ++ rest = other.text.toList ++ more) :
    step = other ∧ rest = more := by
  cases step with
  | field name =>
      rw [toList_text_field] at h
      cases other with
      | field same =>
          obtain ⟨c, tail, rfl, hc⟩ := hrest
          obtain ⟨d, last, rfl, hd⟩ := hmore
          rw [toList_text_field] at h
          obtain ⟨hname, htail⟩ := Text.word_append_inj hstep hother hc hd (List.cons.inj h).2
          exact ⟨by rw [String.toList_inj.1 hname], htail⟩
      | index position => simp [toList_text_index] at h
      | key name => simp [toList_text_key] at h
  | index position =>
      rw [toList_text_index] at h
      cases other with
      | field name => simp [toList_text_field] at h
      | index same =>
          rw [toList_text_index] at h
          simp only [List.cons_append, List.append_assoc, List.nil_append] at h
          have hdigit : ∀ n, ∀ c ∈ Nat.toDigits 10 n, c.isDigit = true :=
            fun n c => Nat.isDigit_of_mem_toDigits (by decide) (by decide)
          obtain ⟨hdigits, htail⟩ := Text.word_append_inj (hdigit position) (hdigit same)
            (by decide) (by decide) (List.cons.inj h).2
          have hsame : position = same := by
            rw [← @Nat.ofDigitChars_ten_toDigits position, hdigits, Nat.ofDigitChars_ten_toDigits]
          exact ⟨by rw [hsame], (List.cons.inj htail).2⟩
      | key name =>
          rw [toList_text_key] at h
          simp only [List.cons_append, List.append_assoc, List.nil_append] at h
          exact absurd (List.cons.inj h).2 (toDigits_append_ne_quote _ _ _ _)
  | key name =>
      rw [toList_text_key] at h
      cases other with
      | field name => simp [toList_text_field] at h
      | index position =>
          rw [toList_text_index] at h
          simp only [List.cons_append, List.append_assoc, List.nil_append] at h
          exact absurd (List.cons.inj h).2.symm (toDigits_append_ne_quote _ _ _ _)
      | key same =>
          rw [toList_text_key] at h
          simp only [List.cons_append, List.append_assoc, List.nil_append] at h
          obtain ⟨rfl, htail⟩ := Text.quote_append_inj (List.cons.inj h).2
          exact ⟨rfl, (List.cons.inj htail).2⟩

end Segment

namespace Path

/-- Steps one after the other, as they are written. -/
def steps (path : Path) : List Char := path.flatMap fun step => step.text.toList

theorem toList_text_cons (step : Segment) (path : Path) :
    (Path.text (step :: path)).toList = steps (step :: path) := by
  rw [Path.text, String.toList_join, List.flatMap_map]
  · rfl
  · simp

/-- Any steps begin like a step. -/
theorem begins_steps_cons (step : Segment) (path : Path) :
    Segment.Begins (steps (step :: path)) := by
  rw [steps, List.flatMap_cons]
  exact step.begins_text _

/-- In front of another step, plain steps show where each of them ends. -/
theorem steps_append_inj {path other : Path} (hpath : ∀ step ∈ path, step.Plain)
    (hother : ∀ step ∈ other, step.Plain) {rest : List Char} (hrest : Segment.Begins rest)
    (h : path.steps ++ rest = other.steps ++ rest) : path = other := by
  have hbegins : ∀ more : Path, Segment.Begins (more.steps ++ rest) := by
    intro more
    cases more with
    | nil => exact hrest
    | cons step more =>
        rw [steps, List.flatMap_cons, List.append_assoc]
        exact step.begins_text _
  have hlonger : ∀ (step : Segment) (more : Path),
      steps (step :: more) ++ rest ≠ steps [] ++ rest := by
    intro step more hsame
    obtain ⟨c, tail, hstep, -⟩ := begins_steps_cons step more
    rw [List.append_left_inj, hstep] at hsame
    cases hsame
  induction path generalizing other with
  | nil =>
      cases other with
      | nil => rfl
      | cons step other => exact absurd h.symm (hlonger step other)
  | cons step path ih =>
      cases other with
      | nil => exact absurd h (hlonger step path)
      | cons first other =>
          rw [steps, steps, List.flatMap_cons, List.flatMap_cons, List.append_assoc,
            List.append_assoc] at h
          obtain ⟨rfl, hmore⟩ := Segment.text_append_inj (hpath step List.mem_cons_self)
            (hother first List.mem_cons_self) (hbegins path) (hbegins other) h
          rw [ih (fun s hs => hpath s (List.mem_cons_of_mem _ hs))
            (fun s hs => hother s (List.mem_cons_of_mem _ hs)) hmore]

/-- The text of the empty path does not begin like a step. -/
theorem steps_ne_toList_text_nil (step : Segment) (path : Path) :
    steps (step :: path) ≠ (Path.text []).toList := by
  intro h
  obtain ⟨c, tail, hbegins, hc⟩ := begins_steps_cons step path
  rw [hbegins] at h
  have hroot : c = '<' := (List.cons.inj h).1
  exact hc (hroot ▸ by decide)

/-- Paths with plain field names are told apart by their texts. -/
theorem eq_of_text_eq {path other : Path} (hpath : ∀ step ∈ path, step.Plain)
    (hother : ∀ step ∈ other, step.Plain) (h : path.text = other.text) : path = other := by
  have hchars := congrArg String.toList h
  cases path with
  | nil =>
      cases other with
      | nil => rfl
      | cons step other =>
          rw [toList_text_cons] at hchars
          exact absurd hchars.symm (steps_ne_toList_text_nil step other)
  | cons step path =>
      cases other with
      | nil =>
          rw [toList_text_cons] at hchars
          exact absurd hchars (steps_ne_toList_text_nil step path)
      | cons first other =>
          rw [toList_text_cons, toList_text_cons] at hchars
          exact steps_append_inj hpath hother ⟨'.', [], rfl, by decide⟩
            (congrArg (· ++ ['.']) hchars)

end Path

/-! ## Paths that do not meet -/

/-- Neither path goes through the end of the other. -/
def Path.Apart (path other : Path) : Prop := ¬path <+: other ∧ ¬other <+: path

theorem Path.apart_cons_iff {step : Segment} {path other : Path} :
    Apart (step :: path) (step :: other) ↔ Apart path other := by
  simp [Apart, List.cons_prefix_cons]

/-- Paths that begin with different steps do not meet. -/
theorem Path.apart_of_ne {step first : Segment} (h : step ≠ first) (path other : Path) :
    Apart (step :: path) (first :: other) := by
  simp [Apart, List.cons_prefix_cons, h, h.symm]

theorem Path.Apart.ne {path other : Path} (h : Apart path other) : path ≠ other := by
  rintro rfl
  exact h.1 List.prefix_rfl

/-- No two of the issues stand at one place or one below the other. -/
def Spread (issues : List Issue) : Prop :=
  issues.Pairwise fun issue other => Path.Apart issue.path other.path

theorem spread_singleton (issue : Issue) : Spread [issue] := List.pairwise_singleton _ _

/-- Issues do not meet below a step if they do not meet. -/
theorem Spread.under {issues : List Issue} (h : Spread issues) (step : Segment) :
    Spread (issues.map (Issue.under step)) :=
  List.pairwise_map.2 (h.imp fun hapart => Path.apart_cons_iff.2 hapart)

section Spread

variable {shelf : Shelf}

/-- The issues of parts do not meet, if the steps to the parts differ and the issues of no part
meet. -/
theorem spread_of_walkParts {parts : List Part} {issues : List Issue}
    (hsteps : (parts.map Part.segment).Nodup)
    (heach : ∀ part ∈ parts, ∀ found, walk shelf [] part.validator part.slot = .ok found →
      Spread found)
    (hwalk : walkParts shelf parts = .ok issues) : Spread issues := by
  induction parts generalizing issues with
  | nil =>
      rw [walkParts] at hwalk
      cases hwalk
      exact List.Pairwise.nil
  | cons part rest ih =>
      rw [walkParts, gather_eq_ok_iff] at hwalk
      obtain ⟨found, more, hfound, hmore, rfl⟩ := hwalk
      obtain ⟨hnew, hrest⟩ := List.nodup_cons.1 hsteps
      obtain ⟨hfirst, hothers⟩ := List.forall_mem_cons.1 heach
      refine List.pairwise_append.2 ⟨(hfirst found hfound).under _, ih hrest hothers hmore, ?_⟩
      intro issue hissue other hother
      obtain ⟨inner, -, rfl⟩ := List.mem_map.1 hissue
      obtain ⟨later, hlater, -, -, deep, -, rfl⟩ := exists_of_mem_walkParts hmore hother
      refine Path.apart_of_ne (fun hsame => hnew ?_) _ _
      rw [hsame]
      exact List.mem_map_of_mem hlater

/-- The steps to the parts of a node differ, if its fields and the slot are in key order. -/
theorem nodup_segments {v : Validator} {slot : Slot} (hslot : slot.Ordered)
    (hfields : ∀ fields closed, v = .object fields closed → Keyed.Sorted fields) :
    ((v.parts slot).map Part.segment).Nodup := by
  have hinjective : ∀ {α : Type} {step : String → Segment}, Function.Injective step →
      ∀ {pairs : List (String × α)}, Keyed.Sorted pairs →
        (pairs.map fun pair => step pair.1).Nodup := by
    intro α step hstep pairs hsorted
    have hkeys := (Keyed.nodup_keys hsorted).map hstep
    rwa [Keyed.keys, List.map_map] at hkeys
  cases v with
  | object fields closed =>
      rcases slot with _ | (_ | _ | _ | _ | _ | members | _)
      case some.object =>
        rw [Validator.parts, List.map_map]
        exact hinjective (fun _ _ => Segment.field.inj) (hfields fields closed rfl)
      all_goals exact List.nodup_nil
  | array item =>
      rcases slot with _ | (_ | _ | _ | _ | items | _ | _)
      case some.array =>
        have hpositions : (items.zipIdx.map Prod.snd).Nodup := by
          rw [List.zipIdx_map_snd]
          exact List.nodup_range'
        have hsteps := hpositions.map fun _ _ => Segment.index.inj
        rw [Validator.parts, List.map_map]
        rwa [List.map_map] at hsteps
      all_goals exact List.nodup_nil
  | record value =>
      rcases slot with _ | (_ | _ | _ | _ | _ | members | _)
      case some.object =>
        rw [Validator.parts, List.map_map]
        exact hinjective (fun _ _ => Segment.key.inj) (hslot _ rfl).1
      all_goals exact List.nodup_nil
  | _ => exact List.nodup_nil

/-- The strays of a node meet neither each other nor what lies in its parts. -/
theorem spread_append_strays {v : Validator} {slot : Slot} {found : List Issue}
    (hslot : slot.Ordered) (hwalk : walkParts shelf (v.parts slot) = .ok found)
    (hfound : Spread found) : Spread (found ++ v.strays slot) := by
  refine List.pairwise_append.2 ⟨hfound, ?_, fun issue hissue other hother => ?_⟩
  · by_cases hnone : v.strays slot = []
    · rw [hnone]
      exact List.Pairwise.nil
    · obtain ⟨stray, hstray⟩ := List.exists_mem_of_ne_nil _ hnone
      obtain ⟨fields, members, rfl, rfl, -⟩ := Validator.mem_strays_iff.1 hstray
      have hmembers : Keyed.Sorted members := (hslot _ rfl).1
      refine List.pairwise_map.2 ((hmembers.filter _).imp fun {member other} hlt => ?_)
      refine Path.apart_of_ne (fun hsame => ?_) _ _
      exact String.lt_irrefl _ (Segment.field.inj hsame ▸ hlt)
  · obtain ⟨fields, members, rfl, rfl, member, -, hnew, rfl⟩ := Validator.mem_strays_iff.1 hother
    obtain ⟨part, hpart, -, -, inner, -, rfl⟩ := exists_of_mem_walkParts hwalk hissue
    obtain ⟨_, -, field, hfield, rfl⟩ := Validator.mem_parts_object_iff.1 hpart
    refine Path.apart_of_ne (fun hsame => hnew ?_) _ _
    rw [← Segment.field.inj hsame]
    exact List.mem_map_of_mem hfield

end Spread

/-! ## Nodes on the way -/

section Nodes

variable {settings : CompilerSettings} {registry : Handle} {set : SchemaSet} {shelf : Shelf}

/-- What lies right below a node is a node. -/
theorem CompiledSet.HasNode.child {compiled : CompiledSet} {v child : Validator}
    (h : compiled.HasNode v) (hchild : child ∈ v.children) : compiled.HasNode child := by
  obtain ⟨name, entry, hentry, hpath⟩ := h
  exact ⟨name, entry, hentry, hpath.tail hchild⟩

/-- A reference of a compiled set leads to a node of the set. -/
theorem SchemaSet.hasNode_of_resolve
    (hshelf : shelf.set? registry = some (set.compile settings registry))
    {target owner : String} {through : Handle} {entry : Entry}
    (hnode : (set.compile settings registry).HasNode (.reference target owner through))
    (h : shelf.resolve through target owner = .ok entry) :
    (set.compile settings registry).HasNode entry.validator := by
  obtain ⟨place, e, hcompile⟩ := exists_of_hasNode hnode
  obtain ⟨-, -, rfl⟩ := Element.origin_of_compile_eq hcompile.symm
  exact ⟨target, entry, (Stands.of_compile hshelf).resolve_eq_ok_iff.1 h, .refl⟩

/-- The issues of a walk through an ordered set do not meet. -/
theorem spread_of_walk (hset : set.Ordered)
    (hshelf : shelf.set? registry = some (set.compile settings registry)) {chain : List String}
    {v : Validator} {slot : Slot} {issues : List Issue}
    (hnode : (set.compile settings registry).HasNode v) (hslot : slot.Ordered)
    (hwalk : walk shelf chain v slot = .ok issues) : Spread issues := by
  induction chain, v, slot using walk_descent shelf generalizing issues with
  | any chain slot =>
      rw [walk_any] at hwalk
      cases hwalk
      exact List.Pairwise.nil
  | asks chain v slot expected hasks ih =>
      cases hadmits : v.admits slot with
      | true =>
          obtain ⟨found, hfound, rfl⟩ := (walk_eq_ok_iff_of_admits hasks hadmits).1 hwalk
          have hsteps : ((v.parts slot).map Part.segment).Nodup := by
            refine nodup_segments hslot fun fields closed hv => ?_
            subst hv
            exact hset.sorted_of_hasNode hnode
          refine spread_append_strays hslot hfound (spread_of_walkParts hsteps ?_ hfound)
          intro part hpart within hwithin
          exact ih part hpart (hnode.child (Validator.mem_children_of_mem_parts hpart))
            (Slot.step?_of_mem_parts hslot hpart).2 hwithin
      | false =>
          rw [walk_of_asks hasks, if_neg (by simp [hadmits])] at hwalk
          cases hwalk
          exact spread_singleton _
  | union chain branches slot ih =>
      rw [walk, bind_eq_ok_iff] at hwalk
      obtain ⟨fits, -, hwalk⟩ := hwalk
      cases hwalk
      cases fits with
      | true => exact List.Pairwise.nil
      | false => exact spread_singleton _
  | lazy chain label child slot ih =>
      rw [walk] at hwalk
      exact ih (hnode.child (List.mem_singleton_self _)) hslot hwalk
  | cycle chain target owner through slot h =>
      rw [walk_cycle h] at hwalk
      cases hwalk
      exact spread_singleton _
  | broken chain target owner through slot cause hnew h =>
      rw [walk_broken hnew h] at hwalk
      cases hwalk
  | follow chain target owner through slot entry hnew h ih =>
      rw [walk_follow hnew h] at hwalk
      exact ih (SchemaSet.hasNode_of_resolve hshelf hnode h) hslot hwalk
  | absent chain inner =>
      rw [walk] at hwalk
      cases hwalk
      exact List.Pairwise.nil
  | present chain inner x ih =>
      rw [walk] at hwalk
      exact ih (hnode.child (List.mem_singleton_self _)) hslot hwalk

end Nodes

/-! ## Plain names -/

/-- The attributes of an object have plain names. -/
def Element.PlainAttributes : Element → Prop
  | .object attributes _ => ∀ a ∈ attributes, PlainName a.1
  | _ => True

instance : DecidablePred Element.PlainAttributes
  | .object attributes _ => inferInstanceAs (Decidable (∀ a ∈ attributes, PlainName a.1))
  | .literal .. | .simple .. | .enumeration .. | .array .. | .record .. | .union ..
  | .function .. | .lazy .. | .reference .. => isTrue trivial

/-- The objects that a walk checks as objects have plain names for their attributes.  Nothing is
said of those that it checks as records. -/
def Visit.PlainMembers (shelf : Shelf) (start : Visit) : Prop :=
  ∀ path chain fields closed members,
    Visit.ReachedFrom shelf ⟨chain, .object fields closed, some (.object members)⟩ start path →
      ∀ member ∈ members, PlainName member.1

/-- It is enough that all objects inside a slot have plain names. -/
theorem Visit.plainMembers_of_follow? {shelf : Shelf} {start : Visit}
    (hslot : start.slot.Ordered)
    (hobjects : ∀ path members, start.slot.follow? path = some (some (.object members)) →
      ∀ member ∈ members, PlainName member.1) : start.PlainMembers shelf := by
  intro path chain fields closed members hreached
  exact hobjects path members (hreached.follow?_eq hslot).1

section Plain

variable {settings : CompilerSettings} {registry : Handle} {set : SchemaSet} {shelf : Shelf}

/-- Where attributes have plain names, the fields of objects do. -/
theorem SchemaSet.plain_of_hasNode
    (hplain : ∀ entry ∈ set.elements, entry.2.Everywhere Element.PlainAttributes)
    {fields : List (String × Validator)} {closed : Bool}
    (hnode : (set.compile settings registry).HasNode (.object fields closed)) :
    ∀ field ∈ fields, PlainName field.1 := by
  have hmarks : ∀ (e : Element) (o : Bool), e.PlainAttributes →
      (e.withOptional o).PlainAttributes := by
    intro e o he
    cases e <;> exact he
  obtain ⟨owner, attributes, heach, rfl⟩ := exists_attributes_of_hasNode hmarks hplain hnode
  intro field hfield
  obtain ⟨a, ha, hname, -⟩ := Element.mem_compileAttributes.1 hfield
  exact hname ▸ heach a ha

/-- Where attributes have plain names, so has every path along which a walk goes. -/
theorem Visit.ReachedFrom.plain
    (hplain : ∀ entry ∈ set.elements, entry.2.Everywhere Element.PlainAttributes)
    (hshelf : shelf.set? registry = some (set.compile settings registry)) {start last : Visit}
    {path : Path} (h : last.ReachedFrom shelf start path)
    (hnode : (set.compile settings registry).HasNode start.validator) :
    ∀ step ∈ path, step.Plain := by
  induction h with
  | here => exact List.forall_mem_nil _
  | lazy _ ih => exact ih (hnode.child (List.mem_singleton_self _))
  | present _ ih => exact ih (hnode.child (List.mem_singleton_self _))
  | follow _ found _ ih => exact ih (SchemaSet.hasNode_of_resolve hshelf hnode found)
  | @down chain v slot part path mem _ ih =>
      have hrest := ih (hnode.child (Validator.mem_children_of_mem_parts mem))
      refine List.forall_mem_cons.2 ⟨?_, hrest⟩
      cases v with
      | object fields closed =>
          obtain ⟨members, -, field, hfield, rfl⟩ := Validator.mem_parts_object_iff.1 mem
          exact SchemaSet.plain_of_hasNode hplain hnode field hfield
      | array item =>
          obtain ⟨items, -, position, x, -, rfl⟩ := Validator.mem_parts_array_iff.1 mem
          trivial
      | record value =>
          obtain ⟨members, -, member, -, rfl⟩ := Validator.mem_parts_record_iff.1 mem
          trivial
      | _ => cases mem

/-- And so has every path to an issue, if the objects of the value have plain names as well. -/
theorem Visit.Finds.plain
    (hplain : ∀ entry ∈ set.elements, entry.2.Everywhere Element.PlainAttributes)
    (hshelf : shelf.set? registry = some (set.compile settings registry)) {start : Visit}
    {issue : Issue} (h : start.Finds shelf issue)
    (hnode : (set.compile settings registry).HasNode start.validator)
    (hmembers : start.PlainMembers shelf) : ∀ step ∈ issue.path, step.Plain := by
  obtain ⟨path, last, own, hreached, hraises, rfl⟩ := h
  refine List.forall_mem_append.2 ⟨hreached.plain hplain hshelf hnode, ?_⟩
  rcases hraises.cases_found with ⟨hpath, -⟩ | ⟨hpath, -⟩ |
    ⟨-, chain, fields, members, member, hmember, rfl, -, hpath⟩
  · rw [hpath]
    exact List.forall_mem_nil _
  · rw [hpath]
    exact List.forall_mem_nil _
  · rw [hpath]
    exact List.forall_mem_singleton.2 (hmembers _ _ _ _ _ hreached member hmember)

end Plain

/-- There is at most one issue at a location: of two issues of a report neither stands where the
other stands nor below it.  Paths whose field names have no dot and no opening bracket are told
apart by their texts, whatever their keys are; so if neither the objects of the set nor those of
the value have such names for their attributes, the texts of the paths of a report differ. -/
theorem issues_stand_apart {set : SchemaSet} {settings : CompilerSettings} {registry : Handle}
    {shelf : Shelf} {name : String} {slot : Slot} {report : Report} (hset : set.Ordered)
    (hshelf : shelf.set? registry = some (set.compile settings registry)) (hslot : slot.Ordered)
    (hcheck : (set.compile settings registry).check shelf name slot = .ok report) :
    (report.issues.Pairwise fun issue other =>
      ¬issue.path <+: other.path ∧ ¬other.path <+: issue.path) ∧
    (∀ path other : Path, (∀ step ∈ path, step.Plain) → (∀ step ∈ other, step.Plain) →
      path.text = other.text → path = other) ∧
    ((∀ entry ∈ set.elements, entry.2.Everywhere Element.PlainAttributes) →
      (∀ e, set.get? name = some e → Visit.PlainMembers shelf
        ⟨[], e.compile settings.unknownAttributes name registry, slot⟩) →
      (report.issues.map fun issue => issue.path.text).Nodup) := by
  obtain ⟨e, he, hwalk⟩ := SchemaSet.exists_walk_of_check hcheck
  have hnode : (set.compile settings registry).HasNode
      (e.compile settings.unknownAttributes name registry) :=
    ⟨name, _, SchemaSet.get?_compile_of_eq he, .refl⟩
  have hspread : Spread report.issues := spread_of_walk hset hshelf hnode hslot hwalk
  refine ⟨hspread, fun path other => Path.eq_of_text_eq, fun hplain hmembers => ?_⟩
  have hpaths : ∀ issue ∈ report.issues, ∀ step ∈ issue.path, step.Plain := fun issue hissue =>
    ((mem_walk_iff_finds hwalk).1 hissue).plain hplain hshelf hnode (hmembers e he)
  refine List.pairwise_map.2 (hspread.imp_of_mem fun hissue hother hapart htext => ?_)
  exact hapart.ne (Path.eq_of_text_eq (hpaths _ hissue) (hpaths _ hother) htext)

/-- Albums with notes under any keys. -/
def album : SchemaSet :=
  .ofList [("album", .object [("notes", .record (.simple .boolean false) false)] false)]

def albumShelf : Shelf := ({} : Shelf).put 0 (album.compile ⟨.reject⟩ (.ofSet 0))

/-- An album with notes whose keys look like paths, and a loose page. -/
def scraps : Value :=
  .object [("notes", .object [("[0]", .null), ("a.b", .null)]), ("page", .null)]

def scrapIssues : List Issue :=
  [⟨[.field "notes", .key "[0]"], .boolean, .slot (some .null)⟩,
    ⟨[.field "notes", .key "a.b"], .boolean, .slot (some .null)⟩,
    ⟨[.field "page"], .noSuchAttribute, .unexpectedAttribute⟩]

/-- A walk through the album checks no other object than the album itself as an object. -/
theorem plainMembers_scraps :
    Visit.PlainMembers albumShelf
      ⟨[], .object [("notes", .record .boolean)] true, some scraps⟩ := by
  intro path chain fields closed members hreached
  cases hreached with
  | here => decide
  | down mem hreached =>
      obtain ⟨_, -, field, hfield, rfl⟩ := Validator.mem_parts_object_iff.1 mem
      obtain rfl := List.mem_singleton.1 hfield
      cases hreached with
      | down mem hreached =>
          obtain ⟨_, -, member, -, rfl⟩ := Validator.mem_parts_record_iff.1 mem
          cases hreached with
          | down mem => cases mem

theorem check_scraps :
    (album.compile ⟨.reject⟩ (.ofSet 0)).check albumShelf "album" (some scraps) =
      .ok ⟨scrapIssues⟩ := by
  have hnotes : walk albumShelf [] (.record .boolean)
      (some (.object [("[0]", .null), ("a.b", .null)])) =
        .ok [⟨[.key "[0]"], .boolean, .slot (some .null)⟩,
          ⟨[.key "a.b"], .boolean, .slot (some .null)⟩] := by
    simp only [walk, walkMembers]
    rfl
  have hentry : (album.compile ⟨.reject⟩ (.ofSet 0)).get? "album" =
      some (Entry.of "album" (.object [("notes", .record .boolean)] true)) := rfl
  refine (check_eq_ok_iff hentry).2 (validateSlot_eq_ok_iff.2 ?_)
  rw [Entry.of, scraps, walk, walkFields, walkFields]
  change (walk albumShelf [] (.record .boolean)
      (some (.object [("[0]", .null), ("a.b", .null)])) >>= _) >>= _ = _
  rw [hnotes]
  rfl

/-- What is found under the keys has texts of its own. -/
theorem issues_stand_apart_scraps :
    album.Ordered ∧ Slot.Ordered (some scraps) ∧
    (album.compile ⟨.reject⟩ (.ofSet 0)).check albumShelf "album" (some scraps) =
      .ok ⟨scrapIssues⟩ ∧
    (scrapIssues.Pairwise fun issue other =>
      ¬issue.path <+: other.path ∧ ¬other.path <+: issue.path) ∧
    (scrapIssues.map fun issue => issue.path.text).Nodup := by
  have hset : album.Ordered := by decide
  have hshelf : albumShelf.set? (.ofSet 0) = some (album.compile ⟨.reject⟩ (.ofSet 0)) :=
    Shelf.set?_put _ _ _
  have hslot : Slot.Ordered (some scraps) := by
    rintro _ ⟨⟩
    simp only [scraps, Value.Ordered, Value.OrderedMembers, Keyed.Sorted]
    decide
  obtain ⟨hapart, -, htexts⟩ := issues_stand_apart hset hshelf hslot check_scraps
  refine ⟨hset, hslot, check_scraps, hapart, htexts (by decide) ?_⟩
  intro e he
  obtain rfl : Element.object [("notes", .record (.simple .boolean false) false)] false = e :=
    Option.some.inj he
  exact plainMembers_scraps

end SchemaSets
