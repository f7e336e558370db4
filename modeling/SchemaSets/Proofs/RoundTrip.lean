import SchemaSets.Proofs.Printed
import SchemaSets.Proofs.Written

/-!
# Texts of sets are read back

A set is written as a document and the document as a text.  The document of a set
has no numbers and lists its members in key order, so its text is read as that
document (`parse_compact`), and the document as the set.

That ends where the reader does: at a document that nests deeper than 127 levels.
The set itself is the first of them, every object around an element is one, and
so is every array and every object of attributes, also where it is empty.  One
level more, and the text is refused.

## Main results

* `ofText_compact_iff` — the sets that come back from their texts, and the fault
  of the others.
-/

namespace SchemaSets

namespace Element

/-! ## Documents of elements are printable -/

theorem printable_string (text : String) : (Json.string text).Printable :=
  ⟨trivial, trivial⟩

theorem printable_optionalMember (o : Bool) : ∀ member ∈ optionalMember o, member.2.Printable := by
  cases o with
  | false => exact List.forall_mem_nil _
  | true => exact List.forall_mem_singleton.2 ⟨trivial, trivial⟩

/-- A document with a definition is printable if the definition is. -/
theorem printable_tagged (form : Form) {definition : Json} (h : definition.Printable) (o : Bool) :
    (tagged form definition o).Printable := by
  refine Json.printable_object_iff.2 ⟨List.pairwise_map.1 ?_, ?_⟩
  · cases o with
    | false => exact (by decide : ["definition", "type"].Pairwise (· < ·))
    | true => exact (by decide : ["definition", "optional", "type"].Pairwise (· < ·))
  · rw [List.forall_mem_append, List.forall_mem_cons]
    exact ⟨⟨h, printable_optionalMember o⟩, List.forall_mem_singleton.2 (printable_string _)⟩

/-- A document of a function is printable if its arguments are and what it returns. -/
theorem printable_taggedFunction {args : List Json} {returns : Option Json}
    (hargs : ∀ arg ∈ args, arg.Printable) (hreturns : ∀ r, returns = some r → r.Printable)
    (o : Bool) : (taggedFunction args returns o).Printable := by
  have hresult : ∀ member ∈ (returns.map fun r => ("returns", r)).toList, member.2.Printable := by
    cases returns with
    | none => exact List.forall_mem_nil _
    | some r => exact List.forall_mem_singleton.2 (hreturns r rfl)
  refine Json.printable_object_iff.2 ⟨List.pairwise_map.1 ?_, ?_⟩
  · cases o <;> cases returns
    · exact (by decide : ["args", "type"].Pairwise (· < ·))
    · exact (by decide : ["args", "returns", "type"].Pairwise (· < ·))
    · exact (by decide : ["args", "optional", "type"].Pairwise (· < ·))
    · exact (by decide : ["args", "optional", "returns", "type"].Pairwise (· < ·))
  · rw [List.forall_mem_append, List.forall_mem_append, List.forall_mem_cons]
    exact ⟨⟨⟨Json.printable_array_iff.2 hargs, printable_optionalMember o⟩, hresult⟩,
      List.forall_mem_singleton.2 (printable_string _)⟩

theorem printable_listToJson {es : List Element} (h : ∀ e ∈ es, e.toJson.Printable) :
    ∀ d ∈ listToJson es, d.Printable := by
  induction es with
  | nil => exact List.forall_mem_nil _
  | cons e es ih =>
      rw [List.forall_mem_cons] at h
      exact List.forall_mem_cons.2 ⟨h.1, ih h.2⟩

/-- Attributes in name order make a printable object. -/
theorem printable_attributesToJson {attributes : List (String × Element)}
    (hsorted : Keyed.Sorted attributes) (h : ∀ a ∈ attributes, a.2.toJson.Printable) :
    (Json.object (attributesToJson attributes)).Printable := by
  have hmap : attributesToJson attributes = attributes.map fun a => (a.1, a.2.toJson) := by
    clear hsorted h
    induction attributes with
    | nil => rfl
    | cons a rest ih => rw [attributesToJson, ih, List.map_cons]
  rw [Json.printable_object_iff, hmap, List.forall_mem_map]
  exact ⟨List.pairwise_map.2 hsorted, h⟩

/-- The document of an element is printable if the element lists its attributes in
name order. -/
theorem printable_toJson {e : Element} (h : e.Everywhere ListsInOrder) : e.toJson.Printable := by
  induction e using Element.induction with
  | literal text o => exact printable_tagged _ (printable_string text) o
  | simple kind o => exact printable_tagged _ (printable_string _) o
  | enumeration values o =>
      refine printable_tagged _ (Json.printable_array_iff.2 ?_) o
      exact List.forall_mem_map.2 fun value _ => printable_string value
  | object attributes o ih =>
      obtain ⟨hsorted, hattributes⟩ := everywhere_object_iff.1 h
      exact printable_tagged _
        (printable_attributesToJson hsorted fun a ha => ih a ha (hattributes a ha)) o
  | array item o ih => exact printable_tagged _ (ih (everywhere_array_iff.1 h).2) o
  | record value o ih => exact printable_tagged _ (ih (everywhere_record_iff.1 h).2) o
  | union branches o ih =>
      have hbranches := (everywhere_union_iff.1 h).2
      refine printable_tagged _ (Json.printable_array_iff.2 ?_) o
      exact printable_listToJson fun e he => ih e he (hbranches e he)
  | function args returns o hargs hreturns =>
      obtain ⟨-, horderedArgs, horderedReturns⟩ := everywhere_function_iff.1 h
      have hlist := printable_listToJson fun e he => hargs e he (horderedArgs e he)
      cases returns with
      | none =>
          refine printable_taggedFunction hlist ?_ o
          rintro _ ⟨⟩
      | some r =>
          refine printable_taggedFunction hlist ?_ o
          rintro _ ⟨⟩
          exact hreturns r rfl (horderedReturns r rfl)
  | lazy child o ih => exact printable_tagged _ (ih (everywhere_lazy_iff.1 h).2) o
  | reference target o => exact printable_tagged _ (printable_string target) o

end Element

namespace SchemaSet

variable {set : SchemaSet}

theorem printable_toJson (h : set.Ordered) : set.toJson.Printable :=
  Element.printable_attributesToJson h.entries fun entry hentry =>
    Element.printable_toJson (h.attributes entry hentry)

/-- The text of a set gives the set back exactly if its document nests at most 127
levels deep; the text of any other set is refused, because it nests too deep. -/
theorem ofText_compact_iff (h : set.Ordered) :
    (ofText set.toJson.compact = .ok set ↔ set.toJson.depth ≤ 127) ∧
      (127 < set.toJson.depth → ∃ line column,
        ofText set.toJson.compact = .error (.text ⟨.recursionLimit, line, column⟩)) := by
  have hbelow : set.toJson.depth ≤ 127 → ofText set.toJson.compact = .ok set := by
    intro hdepth
    rw [ofText, Json.parse_compact (printable_toJson h) hdepth]
    exact ofJson_toJson set
  have habove : 127 < set.toJson.depth → ∃ line column,
      ofText set.toJson.compact = .error (.text ⟨.recursionLimit, line, column⟩) := by
    intro hdepth
    obtain ⟨line, column, hparse⟩ := Json.parse_compact_of_deep (printable_toJson h) hdepth
    exact ⟨line, column, by rw [ofText, hparse]⟩
  refine ⟨⟨fun hok => ?_, hbelow⟩, habove⟩
  by_contra hdepth
  obtain ⟨line, column, herror⟩ := habove (Nat.not_le.1 hdepth)
  rw [hok] at herror
  cases herror

/-! ### Where the limit lies -/

/-- Arrays around an element. -/
def arraysAround (e : Element) : Nat → Element
  | 0 => e
  | n + 1 => .array (arraysAround e n) false

/-- A set of one entry, arrays around a list of no words; its name and what stands
next to the arrays need every kind of escape. -/
def tower (n : Nat) : SchemaSet :=
  ⟨[("\"\\\u0001\n/é", arraysAround (.enumeration [] true) n)]⟩

theorem ordered_tower (n : Nat) : (tower n).Ordered := by
  refine ⟨List.pairwise_singleton .., List.forall_mem_singleton.2 ?_⟩
  show (arraysAround _ n).Everywhere _
  induction n with
  | zero => exact Element.everywhere_enumeration_iff.2 trivial
  | succ n ih => exact Element.everywhere_array_iff.2 ⟨trivial, ih⟩

/-- The set and the list of no words are levels too. -/
theorem depth_tower (n : Nat) : (tower n).toJson.depth = n + 3 := by
  have harrays : ∀ n, (arraysAround (.enumeration [] true) n).toJson.depth = n + 2 := by
    intro n
    induction n with
    | zero => rfl
    | succ n ih =>
        show 1 + max (arraysAround _ n).toJson.depth (max 0 0) = _
        rw [ih]
        omega
  show 1 + max (arraysAround _ n).toJson.depth 0 = _
  rw [harrays]
  omega

/-- Towers of 124 arrays come back, towers of 125 do not. -/
theorem ofText_compact_tower :
    (tower 124).Ordered ∧ ofText (tower 124).toJson.compact = .ok (tower 124) ∧
      (tower 125).Ordered ∧ ∃ line column,
        ofText (tower 125).toJson.compact = .error (.text ⟨.recursionLimit, line, column⟩) :=
  ⟨ordered_tower 124,
    (ofText_compact_iff (ordered_tower 124)).1.2 (Nat.le_of_eq (depth_tower 124)),
    ordered_tower 125,
    (ofText_compact_iff (ordered_tower 125)).2 (Nat.le_of_eq (depth_tower 125).symm)⟩

end SchemaSet
end SchemaSets
