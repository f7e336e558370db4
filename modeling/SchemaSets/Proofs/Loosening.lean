import SchemaSets.Proofs.Indirection
import SchemaSets.Proofs.Mappings

/-!
# Loosened sets

A set is loosened by edits that each take a restriction away: a mark is set, a union
gets one more branch, an object asks for one attribute less, an element gives way to
one that takes anything, an enumeration lists one more text, a signature is exchanged
for another.  An edit may be made anywhere, and as many as one likes.

The walks of a set and of the loosened one have little in common.  A branch that is
put in front may fit and stop the search, or lead once more round a cycle.  What they
accept is compared through descriptions, and there in two steps.  Within one set an
edited element describes what the element did, which is an induction on the place of
the edit (`LoosenedOnce.describes`).  And a description in the one set is one in the
other, since wherever it follows a reference it finds a loosened element, and what it
said of the old one goes over to that (`Describes.transfer`).  So the edits are
accounted for where a reference is followed, and a cycle through an edited element
takes no argument of its own.

## Main results

* `Element.LoosenedOnce.describes` — an edit leaves what is described.
* `accepts_of_loosened` — a loosened set accepts what the set accepts.
-/

namespace SchemaSets

open Relation

namespace Element

/-- An element with one restriction less, at the element itself or somewhere inside. -/
inductive LoosenedOnce : Element → Element → Prop
  | mark {e : Element} : LoosenedOnce e e.optional
  | moreBranches {before after : List Element} {e : Element} {o : Bool} :
      LoosenedOnce (.union (before ++ after) o) (.union (before ++ e :: after) o)
  | fewerAttributes {before after : List (String × Element)} {a : String × Element} {o : Bool} :
      LoosenedOnce (.object (before ++ a :: after) o) (.object (before ++ after) o)
  | anything {e : Element} {o : Bool} : LoosenedOnce e (.simple .any o)
  | moreChoices {before after : List String} {text : String} {o : Bool}
      (several : 2 ≤ (before ++ after).length) :
      LoosenedOnce (.enumeration (before ++ after) o) (.enumeration (before ++ text :: after) o)
  | signature {args others : List Element} {returns other : Option Element} {o : Bool} :
      LoosenedOnce (.function args returns o) (.function others other o)
  | inObject {before after : List (String × Element)} {name : String} {e f : Element} {o : Bool}
      (edit : LoosenedOnce e f) :
      LoosenedOnce (.object (before ++ (name, e) :: after) o)
        (.object (before ++ (name, f) :: after) o)
  | inArray {e f : Element} {o : Bool} (edit : LoosenedOnce e f) :
      LoosenedOnce (.array e o) (.array f o)
  | inRecord {e f : Element} {o : Bool} (edit : LoosenedOnce e f) :
      LoosenedOnce (.record e o) (.record f o)
  | inUnion {before after : List Element} {e f : Element} {o : Bool} (edit : LoosenedOnce e f) :
      LoosenedOnce (.union (before ++ e :: after) o) (.union (before ++ f :: after) o)
  | inLazy {e f : Element} {o : Bool} (edit : LoosenedOnce e f) :
      LoosenedOnce (.lazy e o) (.lazy f o)

theorem isOptional_optional (e : Element) : e.optional.isOptional = true := by
  cases e <;> rfl

/-- An element as it is after any number of edits. -/
def Loosened : Element → Element → Prop := ReflTransGen LoosenedOnce

section Edits

variable {set : SchemaSet} {e f : Element} {slot : Slot}

/-- Where attributes that are not listed are ignored, an object is described by what it
lists. -/
private theorem describes_open {attributes : List (String × Element)} {o : Bool}
    {members : List (String × Value)}
    (each : ∀ a ∈ attributes, set.Describes .ignore a.2 (Keyed.find? a.1 members)) :
    set.Describes .ignore (.object attributes o) (some (.object members)) :=
  .object each fun hreject => nomatch hreject

/-- What an element describes it describes with one restriction less, among the same
entries. -/
theorem LoosenedOnce.describes (h : e.LoosenedOnce f) (hslot : set.Describes .ignore e slot) :
    set.Describes .ignore f slot := by
  induction h generalizing slot with
  | @mark e =>
      cases slot with
      | none => exact .absent e.isOptional_optional
      | some x => exact describes_withOptional_iff.2 hslot
  | moreBranches =>
      cases hslot with
      | absent marked => exact .absent marked
      | union mem describes =>
          apply SchemaSet.Describes.union _ describes
          rw [List.mem_append] at mem ⊢
          exact mem.imp_right (List.mem_cons_of_mem _)
  | fewerAttributes =>
      cases hslot with
      | absent marked => exact .absent marked
      | object each listed =>
          apply describes_open
          rw [List.forall_mem_append, List.forall_mem_cons] at each
          exact List.forall_mem_append.2 ⟨each.1, each.2.2⟩
  | anything => exact .any
  | moreChoices several =>
      cases hslot with
      | absent marked => exact .absent marked
      | fewChoices few => exact absurd few (Nat.not_lt.2 several)
      | choice mem =>
          apply SchemaSet.Describes.choice
          rw [List.mem_append] at mem ⊢
          exact mem.imp_right (List.mem_cons_of_mem _)
  | signature =>
      cases hslot with
      | absent marked => exact .absent marked
      | function => exact .function
  | @inObject before after name e f o _ ih =>
      cases hslot with
      | absent marked => exact .absent marked
      | object each listed =>
          apply describes_open
          rw [List.forall_mem_append, List.forall_mem_cons] at each ⊢
          exact ⟨each.1, ih each.2.1, each.2.2⟩
  | inArray _ ih =>
      cases hslot with
      | absent marked => exact .absent marked
      | array each => exact .array fun x hx => ih (each x hx)
  | inRecord _ ih =>
      cases hslot with
      | absent marked => exact .absent marked
      | record each => exact .record fun member hmember => ih (each member hmember)
  | inUnion _ ih =>
      cases hslot with
      | absent marked => exact .absent marked
      | union mem describes =>
          rcases List.mem_append.1 mem with hbefore | hmem
          · exact .union (List.mem_append_left _ hbefore) describes
          · rcases List.mem_cons.1 hmem with rfl | hafter
            · exact .union (List.mem_append_right _ List.mem_cons_self) (ih describes)
            · apply SchemaSet.Describes.union _ describes
              exact List.mem_append_right _ (List.mem_cons_of_mem _ hafter)
  | inLazy _ ih =>
      cases hslot with
      | absent marked => exact .absent marked
      | lazy describes => exact .lazy (ih describes)

/-- What an element describes it describes after any number of edits. -/
theorem Loosened.describes (h : e.Loosened f) (hslot : set.Describes .ignore e slot) :
    set.Describes .ignore f slot := by
  induction h with
  | refl => exact hslot
  | tail _ hedit ih => exact hedit.describes ih

end Edits

end Element

/-- A set of the same names, each entry after any number of edits. -/
def SchemaSet.Loosened (left right : SchemaSet) : Prop :=
  List.Forall₂ (fun a b => b.1 = a.1 ∧ a.2.Loosened b.2) left.elements right.elements

namespace SchemaSet

variable {left right : SchemaSet} {policy : UnknownAttributes} {e : Element} {slot : Slot}

/-- What an element describes in one set it describes in another, if under every name
of the one there stands in the other an element that describes no less there. -/
theorem Describes.transfer
    (h : ∀ name e, left.get? name = some e → ∃ f, right.get? name = some f ∧
      ∀ slot, right.Describes policy e slot → right.Describes policy f slot)
    (hslot : left.Describes policy e slot) : right.Describes policy e slot := by
  induction hslot with
  | absent marked => exact .absent marked
  | any => exact .any
  | fewChoices few => exact .fewChoices few
  | literal => exact .literal
  | boolean => exact .boolean
  | string => exact .string
  | number isNumber => exact .number isNumber
  | choice mem => exact .choice mem
  | function => exact .function
  | object _ listed ih => exact .object ih listed
  | array _ ih => exact .array ih
  | record _ ih => exact .record ih
  | union mem _ ih => exact .union mem ih
  | lazy _ ih => exact .lazy ih
  | reference found _ ih =>
      obtain ⟨f, hf, hless⟩ := h _ _ found
      exact .reference hf (hless _ ih)

/-- What an entry describes its loosened counterpart describes in the loosened set. -/
theorem Loosened.describes (h : left.Loosened right) {name : String}
    (he : left.get? name = some e) (hslot : left.Describes .ignore e slot) :
    ∃ f, right.get? name = some f ∧ right.Describes .ignore f slot := by
  have hentries : ∀ name e, left.get? name = some e → ∃ f, right.get? name = some f ∧
      ∀ slot, right.Describes .ignore e slot → right.Describes .ignore f slot := by
    intro name e he
    obtain ⟨f, hf, hloosened⟩ := Keyed.exists_of_find? h he
    exact ⟨f, hf, fun slot => hloosened.describes⟩
  obtain ⟨f, hf, hdescribes⟩ := hentries name e he
  exact ⟨f, hf, hdescribes slot (hslot.transfer hentries)⟩

end SchemaSet

/-- Where attributes that are not listed are ignored, a set loosened by any edits accepts
under every entry what the set accepted, if no reference of the loosened set dangles. -/
theorem accepts_of_loosened {left right : SchemaSet} {settings : CompilerSettings}
    {shelf other : Shelf} {registry through : Handle}
    (hignore : settings.unknownAttributes = .ignore) (h : left.Loosened right)
    (hfree : right.DanglingFree)
    (hshelf : shelf.set? registry = some (left.compile settings registry))
    (hother : other.set? through = some (right.compile settings through))
    {name : String} {slot : Slot}
    (haccepts : (left.compile settings registry).verdict? shelf name slot = some true) :
    (right.compile settings through).verdict? other name slot = some true := by
  obtain ⟨e, he, hslot⟩ := exists_of_verdict?_eq_true hshelf haccepts
  rw [hignore] at hslot
  obtain ⟨f, hf, hlooser⟩ := h.describes he hslot
  apply verdict?_eq_true hfree hother hf
  rwa [hignore]

/-- A tree of one of some kinds, whose kids are leaves or trees. -/
def treeOf (kinds : List String) (childless : Bool) : Element :=
  .object [("kids", .array (.union [.reference "leaf" false, .reference "tree" false] false)
    childless), ("kind", .enumeration kinds false)] false

/-- Trees of two kinds. -/
def grove : SchemaSet where
  elements := [("leaf", .union [.literal "leaf" false] false),
    ("tree", treeOf ["ash", "oak"] false)]

/-- Trees of one more kind, which may have no kids and stand for leaves. -/
def wildGrove : SchemaSet where
  elements := [("leaf", .union [.reference "tree" false, .literal "leaf" false] false),
    ("tree", treeOf ["ash", "elm", "oak"] true)]

theorem grove_loosened : grove.Loosened wildGrove := by
  have hleaf : (Element.union [.literal "leaf" false] false).LoosenedOnce
      (.union [.reference "tree" false, .literal "leaf" false] false) :=
    @Element.LoosenedOnce.moreBranches [] _ _ _
  have hkids : (treeOf ["ash", "oak"] false).LoosenedOnce (treeOf ["ash", "oak"] true) :=
    @Element.LoosenedOnce.inObject [] _ _ _ _ _ .mark
  have hkind : (treeOf ["ash", "oak"] true).LoosenedOnce (treeOf ["ash", "elm", "oak"] true) :=
    @Element.LoosenedOnce.inObject [_] _ _ _ _ _
      (@Element.LoosenedOnce.moreChoices ["ash"] ["oak"] _ _ (by decide))
  exact .cons ⟨rfl, .single hleaf⟩ (.cons ⟨rfl, .tail (.single hkids) hkind⟩ .nil)

set_option maxRecDepth 4000 in
/-- A tree inside a tree remains one. -/
theorem accepts_of_loosened_grove :
    let compiled := grove.compile {} (.ofSet 0)
    let wild := wildGrove.compile {} (.ofSet 1)
    let slot := some (.object [("kids", .array [.object [("kids", .array []),
      ("kind", .string "oak")]]), ("kind", .string "ash")])
    compiled.verdict? (({} : Shelf).put 0 compiled) "tree" slot = some true ∧
      wild.verdict? (({} : Shelf).put 1 wild) "tree" slot = some true := by
  intro compiled wild slot
  have hshelf : (({} : Shelf).put 0 compiled).set? (.ofSet 0) =
      some (grove.compile {} (.ofSet 0)) := Shelf.set?_put _ _ _
  have hother : (({} : Shelf).put 1 wild).set? (.ofSet 1) =
      some (wildGrove.compile {} (.ofSet 1)) := Shelf.set?_put _ _ _
  have hfree : wildGrove.DanglingFree := by decide
  have haccepts : compiled.verdict? (({} : Shelf).put 0 compiled) "tree" slot = some true := by
    cbv
  constructor
  · exact haccepts
  · exact accepts_of_loosened rfl grove_loosened hfree hshelf hother haccepts

end SchemaSets
