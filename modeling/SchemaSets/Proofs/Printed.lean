import SchemaSets.Json.Printer
import SchemaSets.Proofs.Mappings
import SchemaSets.Proofs.Ordered

/-!
# Printed texts are read back

The compact text of a document is read as that document, as long as the document
nests no deeper than the reader goes; a document that nests deeper is refused for
that reason and no other.  Documents with numbers are left out here, since the
text of a double and its reading are a matter of their own.

Reading is told in front of any text that follows, and for any number of levels
that may still be opened (`readsWithin_readValue`).  Both outcomes are in one
statement, `ReadsWithin`: a run that reads one part after another goes as deep as
its deepest part, and stops at the first part that is too deep, whatever is left.

The reader is given a bound on its calls.  The characters of the text are enough.

## Main results

* `readString_stringChars` — a string of any characters is read back from its
  escaped form.
* `parse_compact` — the document of a compact text, up to the limit on levels.
* `parse_compact_of_deep` — the fault of a compact text beyond it.
-/

namespace SchemaSets.Json

/-! ## Strings -/

/-- A control is read from the digits that it is written in. -/
theorem readHex_digits {n : Nat} (h : n < 32) (rest : List Char) :
    readHex ('0' :: '0' :: hexDigit (n / 16) :: hexDigit (n % 16) :: rest) = .ok (n, rest) := by
  have hdigits : ∀ m < 32, byteCount ['0', '0', hexDigit (m / 16), hexDigit (m % 16)] = 4 ∧
      hexNumber? ['0', '0', hexDigit (m / 16), hexDigit (m % 16)] = some m := by
    decide
  obtain ⟨hcount, hnumber⟩ := hdigits n h
  have htake : ('0' :: '0' :: hexDigit (n / 16) :: hexDigit (n % 16) :: rest).take 4 =
      ['0', '0', hexDigit (n / 16), hexDigit (n % 16)] := rfl
  rw [readHex, htake, if_neg (by omega), hnumber]
  rfl

/-- One character is read back from its escaped form, and the rest of the string
after it. -/
theorem readStringBody_escapeChar (fuel : Nat) (c : Char) (cs : List Char) :
    readStringBody (fuel + 1) (escapeChar c ++ cs) =
      (do
        let (text, rest) ← readStringBody fuel cs
        .ok (c :: text, rest)) := by
  unfold escapeChar
  -- the seven characters with a name of their own
  iterate 7
    split
    · next hnamed =>
        subst hnamed
        rfl
  split
  · next hcontrol =>
      have hbelow : c.toNat < 32 := hcontrol
      have hlow : ¬(0xdc00 ≤ c.toNat ∧ c.toNat ≤ 0xdfff) := by omega
      have hhigh : ¬(0xd800 ≤ c.toNat ∧ c.toNat ≤ 0xdbff) := by omega
      show (readEscape ('u' :: '0' :: '0' :: hexDigit (c.toNat / 16) ::
        hexDigit (c.toNat % 16) :: cs) >>= _) = _
      rw [readEscape, readHex_digits hbelow]
      show ((if 0xdc00 ≤ c.toNat ∧ c.toNat ≤ 0xdfff then _ else _) >>= _) = _
      rw [if_neg hlow, if_neg hhigh, Char.ofNat_toNat]
      rfl
  · next hother =>
      rw [List.singleton_append, readStringBody]
      · rw [if_neg hother]
      · exact ‹¬c = '"'›
      · exact ‹¬c = '\\'›

/-- A string is read back up to its closing quote. -/
theorem readStringBody_escaped {fuel : Nat} {s : List Char} (h : s.length < fuel)
    (rest : List Char) :
    readStringBody fuel (s.flatMap escapeChar ++ '"' :: rest) = .ok (s, rest) := by
  induction s generalizing fuel with
  | nil =>
      cases fuel with
      | zero => cases h
      | succ fuel => rfl
  | cons c s ih =>
      cases fuel with
      | zero => cases h
      | succ fuel =>
          rw [List.flatMap_cons, List.append_assoc, readStringBody_escapeChar,
            ih (Nat.lt_of_succ_lt_succ h)]
          rfl

/-- No escaped form is empty, so a string is no longer than its escaped form. -/
theorem length_le_length_flatMap_escapeChar (s : List Char) :
    s.length ≤ (s.flatMap escapeChar).length := by
  have hpos : ∀ c, 1 ≤ (escapeChar c).length := by
    intro c
    unfold escapeChar
    repeat' split
    all_goals simp
  induction s with
  | nil => simp
  | cons c s ih =>
      have := hpos c
      rw [List.flatMap_cons, List.length_append, List.length_cons]
      omega

/-- A string is read back from its escaped form. -/
theorem readString_stringChars (s : String) (rest : List Char) :
    readString (s.toList.flatMap escapeChar ++ '"' :: rest) = .ok (s, rest) := by
  have hfuel : s.toList.length < (s.toList.flatMap escapeChar ++ '"' :: rest).length + 1 := by
    have := length_le_length_flatMap_escapeChar s.toList
    rw [List.length_append]
    omega
  rw [readString, readStringBody_escaped hfuel]
  show Except.ok (String.ofList s.toList, rest) = _
  rw [String.ofList_toList]

/-! ## Documents that their texts give back -/

mutual
/-- A document has no numbers. -/
def Numberless : Json → Prop
  | .number _ => False
  | .array items => NumberlessItems items
  | .object members => NumberlessMembers members
  | _ => True
/-- A sequence of documents has no numbers. -/
def NumberlessItems : List Json → Prop
  | [] => True
  | item :: rest => Numberless item ∧ NumberlessItems rest
/-- The members of an object have no numbers. -/
def NumberlessMembers : List (String × Json) → Prop
  | [] => True
  | (_, value) :: rest => Numberless value ∧ NumberlessMembers rest
end

theorem numberlessItems_iff {items : List Json} :
    NumberlessItems items ↔ ∀ item ∈ items, item.Numberless := by
  induction items with
  | nil => simp [NumberlessItems]
  | cons item rest ih => simp [NumberlessItems, ih]

theorem numberlessMembers_iff {members : List (String × Json)} :
    NumberlessMembers members ↔ ∀ member ∈ members, member.2.Numberless := by
  induction members with
  | nil => simp [NumberlessMembers]
  | cons member rest ih =>
      obtain ⟨key, value⟩ := member
      simp [NumberlessMembers, ih]

/-- A document that its text gives back. -/
structure Printable (d : Json) : Prop where
  numberless : d.Numberless
  ordered : d.Ordered

theorem printable_array_iff {items : List Json} :
    (array items).Printable ↔ ∀ item ∈ items, item.Printable := by
  constructor
  · rintro ⟨hnumberless, hordered⟩ item hitem
    exact ⟨numberlessItems_iff.1 hnumberless item hitem, orderedItems_iff.1 hordered item hitem⟩
  · intro h
    exact ⟨numberlessItems_iff.2 fun item hitem => (h item hitem).numberless,
      orderedItems_iff.2 fun item hitem => (h item hitem).ordered⟩

theorem printable_object_iff {members : List (String × Json)} :
    (object members).Printable ↔
      Keyed.Sorted members ∧ ∀ member ∈ members, member.2.Printable := by
  constructor
  · rintro ⟨hnumberless, hsorted, hordered⟩
    exact ⟨hsorted, fun member hmember => ⟨numberlessMembers_iff.1 hnumberless member hmember,
      orderedMembers_iff.1 hordered member hmember⟩⟩
  · rintro ⟨hsorted, h⟩
    exact ⟨numberlessMembers_iff.2 fun member hmember => (h member hmember).numberless,
      hsorted, orderedMembers_iff.2 fun member hmember => (h member hmember).ordered⟩

/-- No text of a document begins with a blank or with the end of an array. -/
theorem exists_compactChars_eq_cons {d : Json} (h : d.Numberless) :
    ∃ c cs, compactChars d = c :: cs ∧ isBlank c = false ∧ c ≠ ']' := by
  cases d with
  | null => exact ⟨'n', _, rfl, by decide, by decide⟩
  | bool b =>
      cases b with
      | true => exact ⟨'t', _, rfl, by decide, by decide⟩
      | false => exact ⟨'f', _, rfl, by decide, by decide⟩
  | number n => exact h.elim
  | string s => exact ⟨'"', _, rfl, by decide, by decide⟩
  | array items => exact ⟨'[', _, rfl, by decide, by decide⟩
  | object members => exact ⟨'\x7b', _, rfl, by decide, by decide⟩

/-- A text has a character more than no text. -/
theorem length_compactChars_pos {d : Json} (h : d.Numberless) : 1 ≤ (compactChars d).length := by
  obtain ⟨c, cs, hcs, -, -⟩ := exists_compactChars_eq_cons h
  rw [hcs]
  exact Nat.le_add_left ..

/-- Items that follow an item, with the closing bracket. -/
def moreItemChars : List Json → List Char
  | [] => [']']
  | item :: rest => ',' :: (compactChars item ++ moreItemChars rest)

/-- Members that follow a member, with the closing brace. -/
def moreMemberChars : List (String × Json) → List Char
  | [] => ['\x7d']
  | (key, value) :: rest =>
    ',' :: (stringChars key ++ ':' :: (compactChars value ++ moreMemberChars rest))

/-- The first item of an array, and those that follow it. -/
theorem compactItems_cons (item : Json) (rest : List Json) :
    compactItems (item :: rest) = compactChars item ++ moreItemChars rest := by
  induction rest generalizing item with
  | nil => rfl
  | cons next rest ih =>
      rw [compactItems, ih, moreItemChars]
      exact List.cons_ne_nil _ _

/-- The first member of an object, and those that follow it. -/
theorem compactMembers_cons (key : String) (value : Json) (rest : List (String × Json)) :
    compactMembers ((key, value) :: rest) =
      stringChars key ++ ':' :: (compactChars value ++ moreMemberChars rest) := by
  induction rest generalizing key value with
  | nil => simp [compactMembers, moreMemberChars]
  | cons next rest ih =>
      rw [compactMembers, ih, moreMemberChars]
      · simp
      · exact List.cons_ne_nil _ _

/-! ## Reading within some levels -/

/-- A run gets through with a result if `depth` levels can be opened, and stops at
the limit if they cannot. -/
structure ReadsWithin {α : Type} (levels depth : Nat) (run : Except Stop α) (result : α) :
    Prop where
  within : depth ≤ levels → run = .ok result
  beyond : levels < depth → ∃ stop, run = .error stop ∧ stop.fault = .recursionLimit

namespace ReadsWithin

variable {α β : Type} {levels depth : Nat} {run : Except Stop α} {result : α}

/-- What opens no level gets through. -/
theorem flat (levels : Nat) (result : α) : ReadsWithin levels 0 (.ok result) result :=
  ⟨fun _ => rfl, fun h => absurd h (Nat.not_lt_zero _)⟩

/-- A part that is followed by another goes as deep as the deeper of the two. -/
theorem andThen {depth' : Nat} {next : α → Except Stop β} {last : β}
    (hrun : ReadsWithin levels depth run result)
    (hnext : ReadsWithin levels depth' (next result) last) :
    ReadsWithin levels (max depth depth') (run >>= next) last := by
  constructor
  · intro hlevels
    rw [hrun.within (by omega)]
    exact hnext.within (by omega)
  · intro hlevels
    by_cases hfirst : depth ≤ levels
    · rw [hrun.within hfirst]
      exact hnext.beyond (by omega)
    · obtain ⟨stop, hstop, hfault⟩ := hrun.beyond (by omega)
      exact ⟨stop, by rw [hstop]; rfl, hfault⟩

/-- What is made of the result opens no level. -/
theorem finish {next : α → Except Stop β} {last : β}
    (hrun : ReadsWithin levels depth run result) (hnext : next result = .ok last) :
    ReadsWithin levels depth (run >>= next) last := by
  have h : ReadsWithin levels 0 (next result) last := by
    rw [hnext]
    exact flat levels last
  have hboth := hrun.andThen h
  rwa [Nat.max_zero] at hboth

/-- A container opens a level and goes as deep as what is in it. -/
theorem opened (hrun : ReadsWithin levels depth run result) :
    ReadsWithin (levels + 1) (1 + depth) run result :=
  ⟨fun h => hrun.within (by omega), fun h => hrun.beyond (by omega)⟩

/-- A container is refused where no level can be opened. -/
theorem refused (depth : Nat) (result : α) (cs : List Char) (taken : Nat) :
    ReadsWithin 0 (1 + depth) (halt .recursionLimit cs taken) result :=
  ⟨fun h => by omega, fun _ => ⟨_, rfl, rfl⟩⟩

end ReadsWithin

/-! ## Single steps of the reader -/

section Steps

variable {fuel levels : Nat} {c : Char} {cs : List Char}

theorem skipBlanks_cons (h : isBlank c = false) : skipBlanks (c :: cs) = c :: cs := by
  rw [skipBlanks, List.dropWhile_cons_of_neg (by simp [h])]

/-- An array that goes on with something else than its end has a first item. -/
theorem readItems_cons (hblank : isBlank c = false) (hend : c ≠ ']') :
    readItems (fuel + 1) levels (c :: cs) =
      (do
        let (item, rest) ← readValue fuel levels (c :: cs)
        let (items, rest) ← readMoreItems fuel levels rest
        .ok (item :: items, rest)) := by
  rw [readItems, skipBlanks_cons hblank]
  split
  · next hnil => cases hnil
  · next hclosed => exact absurd (List.cons.inj hclosed).1 hend
  · rfl

/-- A comma is followed by an item. -/
theorem readMoreItems_comma (hblank : isBlank c = false) (hend : c ≠ ']') :
    readMoreItems (fuel + 1) levels (',' :: c :: cs) =
      (do
        let (item, rest) ← readValue fuel levels (c :: cs)
        let (items, rest) ← readMoreItems fuel levels rest
        .ok (item :: items, rest)) := by
  rw [readMoreItems, skipBlanks_cons (by decide)]
  simp only [skipBlanks_cons hblank]
  split
  · next hnil => cases hnil
  · next hclosed => exact absurd (List.cons.inj hclosed).1 hend
  · rfl

/-- A brace that opens is followed by the key of a first member, its colon, its value
and the members after it. -/
theorem readMembers_key (key : String) (cs : List Char) :
    readMembers (fuel + 1) levels (stringChars key ++ ':' :: cs) =
      (do
        let (value, rest) ← readValue fuel levels cs
        let (members, rest) ← readMoreMembers fuel levels rest
        .ok ((key, value) :: members, rest)) := by
  rw [stringChars, List.cons_append, readMembers, skipBlanks_cons (by decide)]
  simp only [List.append_assoc, List.singleton_append]
  rw [readString_stringChars]
  rfl

/-- A comma is followed by the key of a member, its colon, its value and the members
after it. -/
theorem readMoreMembers_comma (key : String) (cs : List Char) :
    readMoreMembers (fuel + 1) levels (',' :: (stringChars key ++ ':' :: cs)) =
      (do
        let (value, rest) ← readValue fuel levels cs
        let (members, rest) ← readMoreMembers fuel levels rest
        .ok ((key, value) :: members, rest)) := by
  rw [stringChars, List.cons_append, readMoreMembers, skipBlanks_cons (by decide)]
  simp only [skipBlanks_cons (show isBlank '"' = false from by decide), List.append_assoc,
    List.singleton_append]
  rw [readString_stringChars]
  rfl

end Steps

/-! ## Documents -/

/-- Items that follow an item end with a bracket, if nowhere else. -/
theorem length_moreItemChars_pos (items : List Json) : 1 ≤ (moreItemChars items).length := by
  cases items <;> exact Nat.le_add_left ..

/-- Members that follow a member end with a brace, if nowhere else. -/
theorem length_moreMemberChars_pos (members : List (String × Json)) :
    1 ≤ (moreMemberChars members).length := by
  cases members <;> exact Nat.le_add_left ..

mutual
/-- A document is read from its text, in front of any other. -/
theorem readsWithin_readValue {fuel : Nat} (levels : Nat) {d : Json} (hnumberless : d.Numberless)
    (hordered : d.Ordered) (hfuel : (compactChars d).length ≤ fuel) (rest : List Char) :
    ReadsWithin levels d.depth (readValue fuel levels (compactChars d ++ rest)) (d, rest) := by
  cases fuel with
  | zero => exact absurd hfuel (Nat.not_le.2 (length_compactChars_pos hnumberless))
  | succ fuel =>
      cases d with
      | null =>
          rw [compactChars, readValue]
          exact .flat ..
      | bool b =>
          cases b with
          | true =>
              rw [compactChars, readValue]
              exact .flat ..
          | false =>
              rw [compactChars, readValue]
              exact .flat ..
      | number n => exact hnumberless.elim
      | string s =>
          rw [compactChars, stringChars, List.cons_append, readValue, skipBlanks_cons (by decide)]
          simp only [List.append_assoc, List.singleton_append]
          rw [readString_stringChars]
          exact .flat ..
      | array items =>
          rw [compactChars, List.cons_append, readValue, skipBlanks_cons (by decide), depth]
          cases levels with
          | zero => exact .refused ..
          | succ levels =>
              have hitems := readsWithin_readItems levels hnumberless hordered
                (Nat.le_of_succ_le_succ hfuel) rest
              refine (hitems.finish ?_).opened
              rfl
      | object members =>
          obtain ⟨hsorted, hordered⟩ := hordered
          rw [compactChars, List.cons_append, readValue, skipBlanks_cons (by decide), depth]
          cases levels with
          | zero => exact .refused ..
          | succ levels =>
              have hmembers := readsWithin_readMembers levels hnumberless hordered
                (Nat.le_of_succ_le_succ hfuel) rest
              refine (hmembers.finish ?_).opened
              show Except.ok (ofPairs members, rest) = _
              rw [ofPairs, Keyed.ofList_of_sorted hsorted]
/-- The items of an array are read from its text. -/
theorem readsWithin_readItems {fuel : Nat} (levels : Nat) {items : List Json}
    (hnumberless : NumberlessItems items) (hordered : OrderedItems items)
    (hfuel : (compactItems items).length ≤ fuel) (rest : List Char) :
    ReadsWithin levels (depthItems items) (readItems fuel levels (compactItems items ++ rest))
      (items, rest) := by
  cases items with
  | nil =>
      cases fuel with
      | zero => cases hfuel
      | succ fuel =>
          rw [compactItems, readItems]
          exact .flat ..
  | cons item items =>
      rw [compactItems_cons, List.length_append] at hfuel
      have hitem := length_compactChars_pos hnumberless.1
      have hmore := length_moreItemChars_pos items
      cases fuel with
      | zero => omega
      | succ fuel =>
          obtain ⟨c, cs, hcs, hblank, hend⟩ := exists_compactChars_eq_cons hnumberless.1
          rw [compactItems_cons, List.append_assoc, hcs, List.cons_append,
            readItems_cons hblank hend, ← List.cons_append, ← hcs]
          have hvalue := readsWithin_readValue levels hnumberless.1 hordered.1
            (show (compactChars item).length ≤ fuel by omega) (moreItemChars items ++ rest)
          have hitems := readsWithin_readMoreItems levels hnumberless.2 hordered.2
            (show (moreItemChars items).length ≤ fuel by omega) rest
          exact hvalue.andThen (hitems.finish rfl)
/-- The items that follow an item are read from their text. -/
theorem readsWithin_readMoreItems {fuel : Nat} (levels : Nat) {items : List Json}
    (hnumberless : NumberlessItems items) (hordered : OrderedItems items)
    (hfuel : (moreItemChars items).length ≤ fuel) (rest : List Char) :
    ReadsWithin levels (depthItems items)
      (readMoreItems fuel levels (moreItemChars items ++ rest)) (items, rest) := by
  cases fuel with
  | zero => exact absurd hfuel (Nat.not_le.2 (length_moreItemChars_pos items))
  | succ fuel =>
      cases items with
      | nil =>
          rw [moreItemChars, readMoreItems]
          exact .flat ..
      | cons item items =>
          rw [moreItemChars, List.length_cons, List.length_append] at hfuel
          obtain ⟨c, cs, hcs, hblank, hend⟩ := exists_compactChars_eq_cons hnumberless.1
          rw [moreItemChars, List.cons_append, List.append_assoc, hcs, List.cons_append,
            readMoreItems_comma hblank hend, ← List.cons_append, ← hcs]
          have hvalue := readsWithin_readValue levels hnumberless.1 hordered.1
            (show (compactChars item).length ≤ fuel by omega) (moreItemChars items ++ rest)
          have hitems := readsWithin_readMoreItems levels hnumberless.2 hordered.2
            (show (moreItemChars items).length ≤ fuel by omega) rest
          exact hvalue.andThen (hitems.finish rfl)
/-- The members of an object are read from its text. -/
theorem readsWithin_readMembers {fuel : Nat} (levels : Nat) {members : List (String × Json)}
    (hnumberless : NumberlessMembers members) (hordered : OrderedMembers members)
    (hfuel : (compactMembers members).length ≤ fuel) (rest : List Char) :
    ReadsWithin levels (depthMembers members)
      (readMembers fuel levels (compactMembers members ++ rest)) (members, rest) := by
  cases members with
  | nil =>
      cases fuel with
      | zero => cases hfuel
      | succ fuel =>
          rw [compactMembers, readMembers]
          exact .flat ..
  | cons member members =>
      obtain ⟨key, value⟩ := member
      rw [compactMembers_cons, List.length_append, List.length_cons, List.length_append] at hfuel
      have hmore := length_moreMemberChars_pos members
      cases fuel with
      | zero => omega
      | succ fuel =>
          rw [compactMembers_cons, List.append_assoc, List.cons_append, List.append_assoc,
            readMembers_key]
          have hvalue := readsWithin_readValue levels hnumberless.1 hordered.1
            (show (compactChars value).length ≤ fuel by omega) (moreMemberChars members ++ rest)
          have hmembers := readsWithin_readMoreMembers levels hnumberless.2 hordered.2
            (show (moreMemberChars members).length ≤ fuel by omega) rest
          exact hvalue.andThen (hmembers.finish rfl)
/-- The members that follow a member are read from their text. -/
theorem readsWithin_readMoreMembers {fuel : Nat} (levels : Nat) {members : List (String × Json)}
    (hnumberless : NumberlessMembers members) (hordered : OrderedMembers members)
    (hfuel : (moreMemberChars members).length ≤ fuel) (rest : List Char) :
    ReadsWithin levels (depthMembers members)
      (readMoreMembers fuel levels (moreMemberChars members ++ rest)) (members, rest) := by
  cases fuel with
  | zero => exact absurd hfuel (Nat.not_le.2 (length_moreMemberChars_pos members))
  | succ fuel =>
      cases members with
      | nil =>
          rw [moreMemberChars, readMoreMembers]
          exact .flat ..
      | cons member members =>
          obtain ⟨key, value⟩ := member
          rw [moreMemberChars, List.length_cons, List.length_append, List.length_cons,
            List.length_append] at hfuel
          rw [moreMemberChars, List.cons_append, List.append_assoc, List.cons_append,
            List.append_assoc, readMoreMembers_comma]
          have hvalue := readsWithin_readValue levels hnumberless.1 hordered.1
            (show (compactChars value).length ≤ fuel by omega) (moreMemberChars members ++ rest)
          have hmembers := readsWithin_readMoreMembers levels hnumberless.2 hordered.2
            (show (moreMemberChars members).length ≤ fuel by omega) rest
          exact hvalue.andThen (hmembers.finish rfl)
end

section Texts

variable {d : Json} (h : d.Printable)

include h

/-- A whole text is read as its document, up to the limit on levels. -/
theorem readsWithin_readText : ReadsWithin levelLimit d.depth (readText (compactChars d)) d := by
  have hfuel : (compactChars d).length ≤ 2 * (compactChars d).length + 2 := by omega
  have hvalue := readsWithin_readValue levelLimit h.numberless h.ordered hfuel []
  rw [List.append_nil] at hvalue
  exact hvalue.finish rfl

/-- The compact text of a document is read as that document if it nests no deeper
than the reader goes. -/
theorem parse_compact (hdepth : d.depth ≤ levelLimit) : parse d.compact = .ok d := by
  rw [parse, compact, String.toList_ofList, (readsWithin_readText h).within hdepth]

/-- The compact text of a document that nests deeper is refused for that reason. -/
theorem parse_compact_of_deep (hdepth : levelLimit < d.depth) :
    ∃ line column, parse d.compact = .error ⟨.recursionLimit, line, column⟩ := by
  obtain ⟨⟨fault, left, taken⟩, hstop, rfl⟩ := (readsWithin_readText h).beyond hdepth
  rw [parse, compact, String.toList_ofList, hstop]
  exact ⟨_, _, rfl⟩

end Texts

end SchemaSets.Json
