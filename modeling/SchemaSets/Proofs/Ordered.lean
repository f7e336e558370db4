import SchemaSets.Error
import SchemaSets.Json.Reader

/-!
# Documents in key order

The members of an object stand in key order, each key once.  A list of pairs
cannot say so by itself, so it is said here of a document and of every document
inside it (`Json.Ordered`).  Whatever is made from pairs in any order has it, and
so has every document of a text (`ordered_of_parse`).
-/

namespace SchemaSets.Json

mutual
/-- Every object of a document lists its members in key order. -/
def Ordered : Json → Prop
  | .array items => OrderedItems items
  | .object members => Keyed.Sorted members ∧ OrderedMembers members
  | _ => True
/-- Every object in a sequence of documents lists its members in key order. -/
def OrderedItems : List Json → Prop
  | [] => True
  | item :: rest => Ordered item ∧ OrderedItems rest
/-- Every object among the members lists its members in key order. -/
def OrderedMembers : List (String × Json) → Prop
  | [] => True
  | (_, value) :: rest => Ordered value ∧ OrderedMembers rest
end

theorem orderedItems_iff {items : List Json} :
    OrderedItems items ↔ ∀ item ∈ items, item.Ordered := by
  induction items with
  | nil => simp [OrderedItems]
  | cons item rest ih => simp [OrderedItems, ih]

theorem orderedMembers_iff {members : List (String × Json)} :
    OrderedMembers members ↔ ∀ member ∈ members, member.2.Ordered := by
  induction members with
  | nil => simp [OrderedMembers]
  | cons member rest ih =>
      obtain ⟨key, value⟩ := member
      simp [OrderedMembers, ih]

/-- An object of ordered documents is ordered, in whichever order they come. -/
theorem ordered_ofPairs {pairs : List (String × Json)} (h : ∀ pair ∈ pairs, pair.2.Ordered) :
    (ofPairs pairs).Ordered := by
  obtain ⟨hsorted, hmem⟩ := Keyed.sorted_ofList pairs
  exact ⟨hsorted, orderedMembers_iff.2 fun member hmember => h member (hmem member hmember)⟩

/-! ## Texts -/

mutual
/-- A value that is read is ordered. -/
theorem ordered_readValue {fuel levels : Nat} {cs rest : List Char} {d : Json}
    (h : readValue fuel levels cs = .ok (d, rest)) : d.Ordered := by
  cases fuel with
  | zero =>
      rw [readValue] at h
      cases h
  | succ fuel =>
      rw [readValue] at h
      split at h
      · cases h
      -- the three words, a number and a string hold no other document
      iterate 5
        obtain ⟨_, -, heq⟩ := bind_eq_ok_iff.1 h
        cases heq
        trivial
      · cases levels with
        | zero => cases h
        | succ levels =>
            obtain ⟨⟨items, next⟩, hitems, heq⟩ := bind_eq_ok_iff.1 h
            cases heq
            exact ordered_readItems hitems
      · cases levels with
        | zero => cases h
        | succ levels =>
            obtain ⟨⟨pairs, next⟩, hpairs, heq⟩ := bind_eq_ok_iff.1 h
            cases heq
            exact ordered_ofPairs (orderedMembers_iff.1 (ordered_readMembers hpairs))
      · split at h
        · obtain ⟨_, -, heq⟩ := bind_eq_ok_iff.1 h
          cases heq
          trivial
        · cases h
/-- Items that are read are ordered. -/
theorem ordered_readItems {fuel levels : Nat} {cs rest : List Char} {items : List Json}
    (h : readItems fuel levels cs = .ok (items, rest)) : OrderedItems items := by
  cases fuel with
  | zero =>
      rw [readItems] at h
      cases h
  | succ fuel =>
      rw [readItems] at h
      split at h
      · cases h
      · cases h
        trivial
      · obtain ⟨⟨item, next⟩, hitem, h⟩ := bind_eq_ok_iff.1 h
        obtain ⟨⟨items, last⟩, hitems, heq⟩ := bind_eq_ok_iff.1 h
        cases heq
        exact ⟨ordered_readValue hitem, ordered_readMoreItems hitems⟩
/-- Items that follow one item are ordered. -/
theorem ordered_readMoreItems {fuel levels : Nat} {cs rest : List Char} {items : List Json}
    (h : readMoreItems fuel levels cs = .ok (items, rest)) : OrderedItems items := by
  cases fuel with
  | zero =>
      rw [readMoreItems] at h
      cases h
  | succ fuel =>
      rw [readMoreItems] at h
      split at h
      · cases h
      · cases h
        trivial
      · split at h
        · cases h
        · cases h
        · obtain ⟨⟨item, next⟩, hitem, h⟩ := bind_eq_ok_iff.1 h
          obtain ⟨⟨items, last⟩, hitems, heq⟩ := bind_eq_ok_iff.1 h
          cases heq
          exact ⟨ordered_readValue hitem, ordered_readMoreItems hitems⟩
      · cases h
/-- Members that are read are ordered documents. -/
theorem ordered_readMembers {fuel levels : Nat} {cs rest : List Char}
    {pairs : List (String × Json)} (h : readMembers fuel levels cs = .ok (pairs, rest)) :
    OrderedMembers pairs := by
  cases fuel with
  | zero =>
      rw [readMembers] at h
      cases h
  | succ fuel =>
      rw [readMembers] at h
      split at h
      · cases h
      · cases h
        trivial
      · obtain ⟨⟨key, afterKey⟩, -, h⟩ := bind_eq_ok_iff.1 h
        obtain ⟨afterColon, -, h⟩ := bind_eq_ok_iff.1 h
        obtain ⟨⟨value, next⟩, hvalue, h⟩ := bind_eq_ok_iff.1 h
        obtain ⟨⟨pairs, last⟩, hpairs, heq⟩ := bind_eq_ok_iff.1 h
        cases heq
        exact ⟨ordered_readValue hvalue, ordered_readMoreMembers hpairs⟩
      · cases h
/-- Members that follow one member are ordered documents. -/
theorem ordered_readMoreMembers {fuel levels : Nat} {cs rest : List Char}
    {pairs : List (String × Json)} (h : readMoreMembers fuel levels cs = .ok (pairs, rest)) :
    OrderedMembers pairs := by
  cases fuel with
  | zero =>
      rw [readMoreMembers] at h
      cases h
  | succ fuel =>
      rw [readMoreMembers] at h
      split at h
      · cases h
      · cases h
        trivial
      · split at h
        · cases h
        · obtain ⟨⟨key, afterKey⟩, -, h⟩ := bind_eq_ok_iff.1 h
          obtain ⟨afterColon, -, h⟩ := bind_eq_ok_iff.1 h
          obtain ⟨⟨value, next⟩, hvalue, h⟩ := bind_eq_ok_iff.1 h
          obtain ⟨⟨pairs, last⟩, hpairs, heq⟩ := bind_eq_ok_iff.1 h
          cases heq
          exact ⟨ordered_readValue hvalue, ordered_readMoreMembers hpairs⟩
        · cases h
        · cases h
      · cases h
end

/-- The document of a text is ordered. -/
theorem ordered_of_parse {text : String} {d : Json} (h : parse text = .ok d) : d.Ordered := by
  rw [parse] at h
  split at h
  · next document hread =>
      cases h
      rw [readText] at hread
      obtain ⟨⟨document, rest⟩, hvalue, hrest⟩ := bind_eq_ok_iff.1 hread
      dsimp only at hrest
      split at hrest
      · cases hrest
        exact ordered_readValue hvalue
      · cases hrest
  · cases h

end SchemaSets.Json
