import SchemaSets.DescriptionDiff
import SchemaSets.Proofs.Mappings
import SchemaSets.Proofs.Unsigned

/-!
# Comparing descriptions

Two sets without a difference between their descriptions have the same names, and
the elements of a name the same description.  Where names are plain words that
description tells the element up to signatures and to how functions are marked;
so if functions are marked alike too, both sets become one and the same bare set,
and nothing that is checked or written can tell them apart
(`check_and_documents_eq`).

The marks of functions have to be asked for.  An optional function that returns a
number and a function that returns an optional number are both described as
`function() -> number?`, and only the first may be absent
(`same_description_other_answer`).
-/

namespace SchemaSets

/-! ## Maps without differences -/

namespace DescriptionDiff

variable {left right : List (String × String)}

/-- There is no difference at a name that the right map sends to the same text. -/
theorem atLeft?_eq_none_iff {name text : String} :
    atLeft? right name text = none ↔ Keyed.find? name right = some text := by
  rw [atLeft?]
  cases hfound : Keyed.find? name right with
  | none => simp
  | some other =>
      by_cases htext : text = other
      · simp [htext]
      · simp [htext, Ne.symm htext]

/-- Maps in key order have no differences exactly if they are equal. -/
theorem between_eq_nil_iff (hleft : Keyed.Sorted left) (hright : Keyed.Sorted right) :
    between left right = [] ↔ left = right := by
  rw [between, List.append_eq_nil_iff, List.filterMap_eq_nil_iff, List.map_eq_nil_iff,
    List.filter_eq_nil_iff]
  constructor
  · rintro ⟨hat, honly⟩
    have hmem : ∀ entry ∈ left, entry ∈ right := by
      intro entry hentry
      have hfound := atLeft?_eq_none_iff.1 (hat entry hentry)
      exact Keyed.mem_of_find? hfound
    apply Keyed.eq_of_mem_iff hleft hright
    intro entry
    constructor
    · exact hmem entry
    · intro hentry
      -- the left map has the key, and what it has there the right map has as well
      have hcontains : Keyed.contains entry.1 left = true := by simpa using honly entry hentry
      obtain ⟨text, htext⟩ := Option.isSome_iff_exists.1 hcontains
      have hother := Keyed.find?_of_mem hright (hmem _ (Keyed.mem_of_find? htext))
      have hown := Keyed.find?_of_mem hright hentry
      have hsame : text = entry.2 := Option.some.inj (hother.symm.trans hown)
      rw [hsame] at htext
      exact Keyed.mem_of_find? htext
  · intro heq
    subst heq
    constructor
    · intro entry hentry
      have hfound := Keyed.find?_of_mem hleft hentry
      exact atLeft?_eq_none_iff.2 hfound
    · intro entry hentry
      have hkey : entry.1 ∈ Keyed.keys left := List.mem_map_of_mem hentry
      simp [Keyed.contains_iff.2 hkey]

end DescriptionDiff

/-! ## Described elements -/

namespace Validator

theorem describeList_eq_map (vs : List Validator) : describeList vs = vs.map describe := by
  induction vs with
  | nil => rfl
  | cons v vs ih => rw [describeList, ih, List.map_cons]

theorem describeFields_eq_map (fields : List (String × Validator)) :
    describeFields fields = fields.map fun field => (field.1, field.2.describe) := by
  induction fields with
  | nil => rfl
  | cons field rest ih => rw [describeFields, ih, List.map_cons]

end Validator

namespace Element

/-- A mark is described as a mark. -/
theorem describe_wrap (o : Bool) (v : Validator) :
    (wrap o v).describe = marked o v.describe := by
  cases o <;> rfl

/-- A compiled element has the description of the element. -/
theorem describe_compile (policy : UnknownAttributes) (owner : String) (registry : Handle)
    (e : Element) : (e.compile policy owner registry).describe = e.describe policy := by
  have hlist : ∀ es : List Element,
      (∀ e ∈ es, (e.compile policy owner registry).describe = e.describe policy) →
      Validator.describeList (compileList policy owner registry es) = describeList policy es := by
    intro es h
    rw [Validator.describeList_eq_map, compileList_eq_map, describeList_eq_map, List.map_map]
    exact List.map_congr_left h
  induction e using Element.induction with
  | literal text o => rw [compile, describe_wrap, Validator.describe, describe]
  | simple kind o => cases kind <;> rw [compile, describe_wrap, describe] <;> rfl
  | enumeration values o =>
      rw [compile, describe_wrap, describe]
      split <;> rfl
  | object attributes o ih =>
      have hattributes : Validator.describeFields (compileAttributes policy owner registry
          attributes) = describeAttributes policy attributes := by
        rw [Validator.describeFields_eq_map, compileAttributes_eq_map,
          describeAttributes_eq_map, List.map_map]
        exact List.map_congr_left fun a ha => congrArg (Prod.mk a.1) (ih a ha)
      rw [compile, describe_wrap, Validator.describe, describe, hattributes]
  | array item o ih => rw [compile, describe_wrap, Validator.describe, describe, ih]
  | record value o ih => rw [compile, describe_wrap, Validator.describe, describe, ih]
  | union branches o ih =>
      rw [compile, describe_wrap, Validator.describe, describe, hlist branches ih]
  | function args returns o hargs hreturns =>
      cases returns with
      | none => rw [compile, describe_wrap, Validator.describe, describe, hlist args hargs]
      | some r =>
          rw [compile, describe_wrap, Validator.describe, describe, hlist args hargs,
            hreturns r rfl]
  | lazy child o ih => rw [compile, describe_wrap, Validator.describe, describe]
  | reference target o => rw [compile, describe_wrap, Validator.describe, describe]

end Element

/-! ## Sets -/

namespace SchemaSet

/-- Names stand in order, and those inside elements are plain words. -/
structure WellNamed (set : SchemaSet) : Prop where
  entries : Keyed.Sorted set.elements
  inside : ∀ entry ∈ set.elements, entry.2.WellNamed

instance (set : SchemaSet) : Decidable set.WellNamed :=
  decidable_of_iff (set.elements.Pairwise (fun a b : String × Element => a.1 < b.1) ∧
      ∀ entry ∈ set.elements, entry.2.WellNamed)
    ⟨fun h => ⟨h.1, h.2⟩, fun h => ⟨h.entries, h.inside⟩⟩

/-- The marks of the functions in each entry. -/
def functionMarks (set : SchemaSet) : List (String × List Bool) :=
  Keyed.mapValues (fun _ e => e.functionMarks) set.elements

/-- A compiled set is described by its elements. -/
theorem describe_compile (settings : CompilerSettings) (registry : Handle) (set : SchemaSet) :
    (set.compile settings registry).describe =
      Keyed.mapValues (fun _ e => e.describe settings.unknownAttributes) set.elements := by
  rw [compile, CompiledSet.describe, CompiledSet.ofValidators, List.map_map, List.map_map]
  refine List.map_congr_left fun entry _ => ?_
  exact congrArg (Prod.mk entry.1) (Element.describe_compile _ _ _ entry.2)

/-- Without a difference between descriptions, well-named sets whose functions are
marked alike are the same without signatures. -/
theorem unsigned_eq_of_between_eq_nil {left right : SchemaSet} {settings : CompilerSettings}
    {registry through : Handle} (hleft : left.WellNamed) (hright : right.WellNamed)
    (hmarks : left.functionMarks = right.functionMarks)
    (hdiff : DescriptionDiff.between (left.compile settings registry).describe
      (right.compile settings through).describe = []) : left.unsigned = right.unsigned := by
  rw [describe_compile, describe_compile, DescriptionDiff.between_eq_nil_iff
    (Keyed.sorted_mapValues hleft.entries _) (Keyed.sorted_mapValues hright.entries _)] at hdiff
  apply congrArg SchemaSet.mk
  apply Keyed.eq_of_find?_eq (Keyed.sorted_mapValues hleft.entries _)
    (Keyed.sorted_mapValues hright.entries _)
  intro name
  have hdescription := congrArg (Keyed.find? name) hdiff
  have hmark := congrArg (Keyed.find? name) hmarks
  simp only [functionMarks, Keyed.find?_mapValues] at hdescription hmark ⊢
  cases hfirst : Keyed.find? name left.elements with
  | none =>
      cases hsecond : Keyed.find? name right.elements with
      | none => rfl
      | some f => simp [hfirst, hsecond] at hdescription
  | some e =>
      cases hsecond : Keyed.find? name right.elements with
      | none => simp [hfirst, hsecond] at hdescription
      | some f =>
          simp only [hfirst, hsecond, Option.map_some, Option.some.injEq] at hdescription hmark ⊢
          have hsettled := Element.settled_eq_of_describe_eq
            (hleft.inside _ (Keyed.mem_of_find? hfirst))
            (hright.inside _ (Keyed.mem_of_find? hsecond)) hdescription
          exact Element.unsigned_eq_of_settled_eq hsettled hmark

end SchemaSet

open DescriptionDiff (between)

/-- Sets that are named plainly, whose functions are marked alike, and whose
descriptions do not differ cannot be told apart: they report the same under every
name, errors included, and have the same documents. -/
theorem check_and_documents_eq {left right : SchemaSet} {settings : CompilerSettings}
    {shelf other : Shelf} {registry through : Handle}
    (hleft : left.WellNamed) (hright : right.WellNamed)
    (hmarks : left.functionMarks = right.functionMarks)
    (hshelf : shelf.set? registry = some (left.compile settings registry))
    (hother : other.set? through = some (right.compile settings through))
    (hdiff : between (left.compile settings registry).describe
      (right.compile settings through).describe = []) (name : String) :
    (∀ slot, (left.compile settings registry).check shelf name slot =
      (right.compile settings through).check other name slot) ∧
    ∀ exporter, ((left.compile settings registry).exportFor shelf exporter left).get? name =
      ((right.compile settings through).exportFor other exporter right).get? name := by
  have hunsigned := SchemaSet.unsigned_eq_of_between_eq_nil hleft hright hmarks hdiff
  have hbare : (left.compile settings registry).bare = (right.compile settings through).bare := by
    rw [SchemaSet.bare_compile_unsigned, hunsigned, ← SchemaSet.bare_compile_unsigned]
  have hdependencies : left.dependencyMap = right.dependencyMap := by
    rw [← SchemaSet.dependencyMap_unsigned, hunsigned, SchemaSet.dependencyMap_unsigned]
  have hstands := Stands.of_compile hshelf
  have hstandsToo := Stands.of_compile hother
  constructor
  · intro slot
    exact check_eq_of_bare_eq hstands hstandsToo hbare name slot
  · intro exporter
    rw [CompiledSet.exportFor, CompiledSet.exportFor, hdependencies]
    exact get?_exportWith_eq_of_bare_eq hstands hstandsToo hbare exporter right.dependencyMap name

/-- A node that takes a callback, and a callback of the callback; the marks are those
of the inner callback and of what it returns. -/
def callbacks (anything : Element) (inner result : Bool) : SchemaSet :=
  .ofList [("Node", .ofAttributes [("next", .reference "Node" true),
      ("on", .function [.reference "Any" false]
        (some (.function [] (some (.simple .number result)) inner)) false)]),
    ("Any", anything)]

/-- Two sets of callbacks, compiled side by side. -/
def callbackShelf : Shelf :=
  (({} : Shelf).put 0 ((callbacks (.enumeration ["x"] false) false true).compile {}
    (.ofSet 0))).put 1 ((callbacks (.simple .any false) true false).compile {} (.ofSet 1))

/-- Two sets that differ in a signature, and in how they say that anything is taken,
cannot be told apart. -/
theorem check_and_documents_eq_callbacks :
    callbacks (.enumeration ["x"] false) false true ≠ callbacks (.simple .any false) true false ∧
    (∀ slot,
      ((callbacks (.enumeration ["x"] false) false true).compile {} (.ofSet 0)).check callbackShelf
        "Node" slot =
      ((callbacks (.simple .any false) true false).compile {} (.ofSet 1)).check callbackShelf
        "Node" slot) ∧
    ∀ exporter,
      (((callbacks (.enumeration ["x"] false) false true).compile {} (.ofSet 0)).exportFor
        callbackShelf exporter (callbacks (.enumeration ["x"] false) false true)).get? "Node" =
      (((callbacks (.simple .any false) true false).compile {} (.ofSet 1)).exportFor
        callbackShelf exporter (callbacks (.simple .any false) true false)).get? "Node" :=
  ⟨by decide, check_and_documents_eq (by decide) (by decide) (by decide) rfl rfl (by decide)
    "Node"⟩

/-- An optional function that returns a number. -/
def optionalFunction : SchemaSet :=
  .ofList [("A", .function [] (some (.simple .number false)) true)]

/-- A function that returns an optional number. -/
def optionalResult : SchemaSet :=
  .ofList [("A", .function [] (some (.simple .number true)) false)]

/-- Two well-named sets whose descriptions do not differ, and of which only one takes an
empty slot. -/
theorem same_description_other_answer :
    optionalFunction.WellNamed ∧ optionalResult.WellNamed ∧
    between (optionalFunction.compile {} (.ofSet 0)).describe
      (optionalResult.compile {} (.ofSet 0)).describe = [] ∧
    (optionalFunction.compile {} (.ofSet 0)).check
      (({} : Shelf).put 0 (optionalFunction.compile {} (.ofSet 0))) "A" none = .ok ⟨[]⟩ ∧
    (optionalResult.compile {} (.ofSet 0)).check
      (({} : Shelf).put 0 (optionalResult.compile {} (.ofSet 0))) "A" none =
        .ok ⟨[Issue.here .function none]⟩ := by
  refine ⟨by decide, by decide, by decide, ?_, ?_⟩
  · show Except.mapError _ (Validator.validateSlot _ (.optional _) none) = _
    rw [Validator.validateSlot, walk]
    rfl
  · show Except.mapError _ (Validator.validateSlot _ (.function _ _) none) = _
    rw [Validator.validateSlot, walk]
    rfl

end SchemaSets
