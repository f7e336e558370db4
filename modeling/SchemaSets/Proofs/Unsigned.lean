import SchemaSets.Proofs.Bare
import SchemaSets.Proofs.Unambiguous

/-!
# Elements without signatures

What checks look at in a compiled set is told by the set without signatures, with
each function marked as it is: the two compile to the same bare set
(`bare_compile_unsigned`), and their entries depend on the same names
(`dependencyMap_unsigned`).

A settled element is without signatures too, but marks functions as descriptions
suggest.  `functionMarks` is what it lacks, one mark for each function, and
putting the marks back in gives the element without signatures
(`refill_unsigned`).
-/

namespace SchemaSets

namespace Element

/-! ## The marks of functions -/

mutual
/-- The marks of the functions in an element, in the order in which they stand,
signatures left out. -/
def functionMarks : Element → List Bool
  | .literal _ _ | .simple _ _ | .enumeration _ _ | .reference _ _ => []
  | .object attributes _ => functionMarksOfAttributes attributes
  | .array item _ => functionMarks item
  | .record value _ => functionMarks value
  | .union branches _ => functionMarksOfList branches
  | .function _ _ o => [o]
  | .lazy child _ => functionMarks child
/-- The marks of the functions in a list of elements. -/
def functionMarksOfList : List Element → List Bool
  | [] => []
  | e :: rest => functionMarks e ++ functionMarksOfList rest
/-- The marks of the functions in a list of attributes. -/
def functionMarksOfAttributes : List (String × Element) → List Bool
  | [] => []
  | (_, e) :: rest => functionMarks e ++ functionMarksOfAttributes rest
end

mutual
/-- The element with its functions marked from a list, in the order in which they
stand, and what is left of the list. -/
def refill : Element → List Bool → Element × List Bool
  | .literal text o, marks => (.literal text o, marks)
  | .simple kind o, marks => (.simple kind o, marks)
  | .enumeration values o, marks => (.enumeration values o, marks)
  | .object attributes o, marks =>
    let filled := refillAttributes attributes marks
    (.object filled.1 o, filled.2)
  | .array item o, marks =>
    let filled := refill item marks
    (.array filled.1 o, filled.2)
  | .record value o, marks =>
    let filled := refill value marks
    (.record filled.1 o, filled.2)
  | .union branches o, marks =>
    let filled := refillList branches marks
    (.union filled.1 o, filled.2)
  | .function args returns o, [] => (.function args returns o, [])
  | .function args returns _, mark :: rest => (.function args returns mark, rest)
  | .lazy child o, marks =>
    let filled := refill child marks
    (.lazy filled.1 o, filled.2)
  | .reference target o, marks => (.reference target o, marks)
/-- A list of elements with functions marked from a list. -/
def refillList : List Element → List Bool → List Element × List Bool
  | [], marks => ([], marks)
  | e :: rest, marks =>
    let filled := refill e marks
    let others := refillList rest filled.2
    (filled.1 :: others.1, others.2)
/-- Attributes with functions marked from a list. -/
def refillAttributes :
    List (String × Element) → List Bool → List (String × Element) × List Bool
  | [], marks => ([], marks)
  | (name, e) :: rest, marks =>
    let filled := refill e marks
    let others := refillAttributes rest filled.2
    ((name, filled.1) :: others.1, others.2)
end

section Refilling

variable {mark : Element → Bool}

/-- An element takes its own marks back, and leaves the others. -/
def Refills (mark : Element → Bool) (e : Element) : Prop :=
  ∀ others, (e.unsigned mark).refill (e.functionMarks ++ others) =
    (e.unsigned isOptional, others)

private theorem refillList_unsigned {es : List Element} (h : ∀ e ∈ es, e.Refills mark)
    (others : List Bool) :
    refillList (unsignedList mark es) (functionMarksOfList es ++ others) =
      (unsignedList isOptional es, others) := by
  induction es with
  | nil => rfl
  | cons e es ih =>
      have hfirst := h e List.mem_cons_self (functionMarksOfList es ++ others)
      rw [unsignedList, unsignedList, functionMarksOfList, List.append_assoc, refillList, hfirst,
        ih fun e he => h e (List.mem_cons_of_mem _ he)]

private theorem refillAttributes_unsigned {attributes : List (String × Element)}
    (h : ∀ a ∈ attributes, a.2.Refills mark) (others : List Bool) :
    refillAttributes (unsignedAttributes mark attributes)
        (functionMarksOfAttributes attributes ++ others) =
      (unsignedAttributes isOptional attributes, others) := by
  induction attributes with
  | nil => rfl
  | cons a rest ih =>
      have hfirst := h a List.mem_cons_self (functionMarksOfAttributes rest ++ others)
      rw [unsignedAttributes, unsignedAttributes, functionMarksOfAttributes, List.append_assoc,
        refillAttributes, hfirst, ih fun a ha => h a (List.mem_cons_of_mem _ ha)]

/-- Whichever way functions are marked, with their own marks put back in they are
marked as they are. -/
theorem refill_unsigned (mark : Element → Bool) (e : Element) : e.Refills mark := by
  induction e using Element.induction with
  | literal text o => exact fun others => rfl
  | simple kind o => exact fun others => rfl
  | enumeration values o =>
      intro others
      rw [unsigned, unsigned, functionMarks]
      split <;> rfl
  | object attributes o ih =>
      intro others
      rw [unsigned, unsigned, functionMarks, refill, refillAttributes_unsigned ih]
  | array item o ih =>
      intro others
      rw [unsigned, unsigned, functionMarks, refill, ih]
  | record value o ih =>
      intro others
      rw [unsigned, unsigned, functionMarks, refill, ih]
  | union branches o ih =>
      intro others
      rw [unsigned, unsigned, functionMarks, refill, refillList_unsigned ih]
  | function args returns o _ _ => exact fun others => rfl
  | lazy child o ih =>
      intro others
      rw [unsigned, unsigned, functionMarks, refill, ih]
  | reference target o => exact fun others => rfl

/-- Elements that are the same once settled and have the same marks on functions
are the same without signatures. -/
theorem unsigned_eq_of_settled_eq {e f : Element} (h : e.settled = f.settled)
    (hmarks : e.functionMarks = f.functionMarks) :
    e.unsigned isOptional = f.unsigned isOptional := by
  have hleft := refill_unsigned (fun f => decide (0 < f.marks)) e []
  have hright := refill_unsigned (fun f => decide (0 < f.marks)) f []
  rw [← settled, h, hmarks] at hleft
  rw [← settled] at hright
  exact congrArg Prod.fst (hleft.symm.trans hright)

end Refilling

/-! ## What checks look at -/

/-- The targets of a list of elements are those of its members. -/
theorem targetsOfList_eq_flatMap (es : List Element) :
    targetsOfList es = es.flatMap targets := by
  induction es with
  | nil => rfl
  | cons e es ih => rw [targetsOfList, ih, List.flatMap_cons]

/-- The targets of attributes are those of their elements. -/
theorem targetsOfAttributes_eq_flatMap (attributes : List (String × Element)) :
    targetsOfAttributes attributes = attributes.flatMap fun a => a.2.targets := by
  induction attributes with
  | nil => rfl
  | cons a rest ih => rw [targetsOfAttributes, ih, List.flatMap_cons]

/-- An object refers to what its attributes refer to. -/
theorem mem_targets_of_attribute {attributes : List (String × Element)} {o : Bool}
    {a : String × Element} (ha : a ∈ attributes) {target : String} (h : target ∈ a.2.targets) :
    target ∈ (Element.object attributes o).targets := by
  rw [targets, targetsOfAttributes_eq_flatMap]
  exact List.mem_flatMap.2 ⟨a, ha, h⟩

/-- A union refers to what its branches refer to. -/
theorem mem_targets_of_branch {branches : List Element} {o : Bool} {branch : Element}
    (hbranch : branch ∈ branches) {target : String} (h : target ∈ branch.targets) :
    target ∈ (Element.union branches o).targets := by
  rw [targets, targetsOfList_eq_flatMap]
  exact List.mem_flatMap.2 ⟨branch, hbranch, h⟩

/-- Without signatures an element has the same targets. -/
theorem targets_unsigned (mark : Element → Bool) (e : Element) :
    (e.unsigned mark).targets = e.targets := by
  induction e using Element.induction with
  | literal text o => rfl
  | simple kind o => rfl
  | enumeration values o =>
      rw [unsigned]
      split <;> rfl
  | object attributes o ih =>
      rw [unsigned, targets, targets, unsignedAttributes_eq_map, targetsOfAttributes_eq_flatMap,
        targetsOfAttributes_eq_flatMap, List.flatMap_map]
      exact List.flatMap_congr ih
  | array item o ih => rw [unsigned, targets, targets, ih]
  | record value o ih => rw [unsigned, targets, targets, ih]
  | union branches o ih =>
      rw [unsigned, targets, targets, unsignedList_eq_map, targetsOfList_eq_flatMap,
        targetsOfList_eq_flatMap, List.flatMap_map]
      exact List.flatMap_congr ih
  | function args returns o _ _ => rfl
  | lazy child o ih => rw [unsigned, targets, targets, ih]
  | reference target o => rfl

/-- A marked validator is bare if what it marks is. -/
theorem bare_wrap (o : Bool) (v : Validator) : (wrap o v).bare = wrap o v.bare := by
  cases o <;> rfl

/-- An element compiles to the same bare validator without signatures. -/
theorem bare_compile (policy : UnknownAttributes) (owner : String) (registry : Handle)
    (e : Element) :
    (e.compile policy owner registry).bare =
      ((e.unsigned isOptional).compile policy owner .detached).bare := by
  induction e using Element.induction with
  | literal text o => rw [unsigned, compile, compile]
  | simple kind o => rw [unsigned, compile, compile]
  | enumeration values o =>
      rw [unsigned, compile]
      split
      · rfl
      · next hmany => rw [compile, if_neg hmany]
  | object attributes o ih =>
      rw [unsigned, compile, compile, bare_wrap, bare_wrap, Validator.bare, Validator.bare,
        Validator.bareFields_eq_map, Validator.bareFields_eq_map, compileAttributes_eq_map,
        compileAttributes_eq_map, unsignedAttributes_eq_map, List.map_map, List.map_map,
        List.map_map]
      congr 2
      exact List.map_congr_left fun a ha => congrArg (Prod.mk a.1) (ih a ha)
  | array item o ih =>
      rw [unsigned, compile, compile, bare_wrap, bare_wrap, Validator.bare, Validator.bare, ih]
  | record value o ih =>
      rw [unsigned, compile, compile, bare_wrap, bare_wrap, Validator.bare, Validator.bare, ih]
  | union branches o ih =>
      rw [unsigned, compile, compile, bare_wrap, bare_wrap, Validator.bare, Validator.bare,
        Validator.bareList_eq_map, Validator.bareList_eq_map, compileList_eq_map,
        compileList_eq_map, unsignedList_eq_map, List.map_map, List.map_map, List.map_map]
      congr 2
      exact List.map_congr_left ih
  | function args returns o _ _ =>
      cases returns <;>
        rw [unsigned, compile, compile, bare_wrap, bare_wrap, Validator.bare, Validator.bare] <;>
        rfl
  | lazy child o ih =>
      rw [unsigned, compile, compile, bare_wrap, bare_wrap, Validator.bare, Validator.bare, ih]
  | reference target o =>
      rw [unsigned, compile, compile, bare_wrap, bare_wrap, Validator.bare, Validator.bare]

end Element

namespace SchemaSet

variable {set : SchemaSet}

/-- The set without signatures, with functions marked as they are. -/
def unsigned (set : SchemaSet) : SchemaSet :=
  ⟨Keyed.mapValues (fun _ e => e.unsigned Element.isOptional) set.elements⟩

theorem get?_unsigned (set : SchemaSet) (name : String) :
    set.unsigned.get? name = (set.get? name).map (Element.unsigned Element.isOptional) := by
  rw [get?, unsigned, Keyed.find?_mapValues, ← get?]

theorem names_unsigned (set : SchemaSet) : set.unsigned.names = set.names := by
  rw [names, names, unsigned, Keyed.keys_mapValues]

/-- Both sets compile to the same bare set. -/
theorem bare_compile_unsigned (settings : CompilerSettings) (registry : Handle)
    (set : SchemaSet) :
    (set.compile settings registry).bare = (set.unsigned.compile settings .detached).bare := by
  have hentry : ∀ entry : String × Element,
      Entry.bare (Entry.of entry.1
        (entry.2.compile settings.unknownAttributes entry.1 registry)) =
      Entry.bare (Entry.of entry.1 ((entry.2.unsigned Element.isOptional).compile
        settings.unknownAttributes entry.1 .detached)) := by
    intro entry
    have hbare := Element.bare_compile settings.unknownAttributes entry.1 registry entry.2
    exact congrArg (Entry.of entry.1) hbare
  simp only [compile, CompiledSet.ofValidators, CompiledSet.bare, unsigned, Keyed.mapValues,
    List.map_map, Function.comp_def, hentry]

/-- Once bare, a set no longer shows the handle that it was compiled for. -/
theorem bare_compile_eq (settings : CompilerSettings) (registry through : Handle)
    (set : SchemaSet) :
    (set.compile settings registry).bare = (set.compile settings through).bare := by
  rw [bare_compile_unsigned settings registry, bare_compile_unsigned settings through]

/-- Both sets have the same direct dependencies. -/
theorem dependencies_unsigned (e : Element) :
    (e.unsigned Element.isOptional).dependencies = e.dependencies := by
  rw [Element.dependencies, Element.dependencies, Element.targets_unsigned]

/-- A search in either set meets the same names. -/
theorem search_unsigned (set : SchemaSet) (met todo : List String) :
    set.unsigned.search met todo = set.search met todo := by
  fun_induction search set met todo with
  | case1 met => rw [search]
  | case2 met name rest hmet ih => rw [search, dif_pos hmet, ih]
  | case3 met name rest hmet hnone ih =>
      have hfound : set.unsigned.get? name = none := by rw [get?_unsigned, hnone]; rfl
      rw [search, dif_neg hmet, ← ih]
      split <;> simp_all
  | case4 met name rest hmet e he ih =>
      have hfound : set.unsigned.get? name = some (e.unsigned Element.isOptional) := by
        rw [get?_unsigned, he]; rfl
      rw [search, dif_neg hmet, ← ih, ← dependencies_unsigned e]
      split <;> simp_all

/-- Both sets have the same direct dependencies under every name. -/
theorem successors_unsigned (set : SchemaSet) (name : String) :
    set.unsigned.successors name = set.successors name := by
  rw [successors, successors, get?_unsigned]
  cases set.get? name with
  | none => rfl
  | some e => exact dependencies_unsigned e

/-- The same names can be reached in both sets. -/
theorem closure_unsigned (set : SchemaSet) (name : String) :
    set.unsigned.closure name = set.closure name := by
  rw [closure, closure, successors_unsigned, search_unsigned]

/-- The entries of both sets depend on the same names. -/
theorem dependencyMap_unsigned (set : SchemaSet) :
    set.unsigned.dependencyMap = set.dependencyMap := by
  rw [dependencyMap, dependencyMap, names_unsigned]
  exact List.map_congr_left fun name _ => congrArg (Prod.mk name) (closure_unsigned set name)

/-- Both sets refer to the same names that they do not have. -/
theorem unresolved_unsigned (set : SchemaSet) : set.unsigned.unresolved = set.unresolved := by
  have hcontains : ∀ name, set.unsigned.contains name = set.contains name := by
    intro name
    rw [Bool.eq_iff_iff, contains, contains, Keyed.contains_iff, Keyed.contains_iff]
    exact Iff.of_eq (congrArg (name ∈ ·) set.names_unsigned)
  have hsuccessors : set.unsigned.successors = set.successors := funext set.successors_unsigned
  simp only [unresolved, names_unsigned, hsuccessors, hcontains]

end SchemaSet

end SchemaSets
