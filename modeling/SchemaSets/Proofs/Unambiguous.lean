import Mathlib.Data.List.Basic
import SchemaSets.Proofs.Delimited
import SchemaSets.Proofs.Nodes
import SchemaSets.Validator.Description

/-!
# What a description tells

A description is read from left to right.  It begins with a word that no other
beginning continues, so the word gives the form of the element away; the parts
that follow are closed by a bracket; and the marks come last.  Read like this,
two elements with one description can only differ in two ways
(`settled_eq_of_describe_eq`).

An enumeration of fewer than two strings is written as what it means, `any`.  And
a function that returns something has no bracket after it.  The marks at the end
of `function() -> number?` may belong to the function or to what it returns, and
the description does not tell; only their number is certain.

`settled` forgets these differences.  It forgets the signature of a function as
well, which the description does tell, but which nothing is ever checked against.

Names have to be words of letters, digits and underscores.  With other names the
description of one form can be the name of another.
-/

namespace SchemaSets

namespace Element

/-! ## Settled elements -/

/-- How many marks the description of an element ends in. -/
def marks : Element → Nat
  | .function _ (some returns) o => marks returns + o.toNat
  | e => e.isOptional.toNat

mutual
/-- The element without signatures, where functions are marked as `mark` says, and
with enumerations that restrict nothing written as what they mean. -/
def unsigned (mark : Element → Bool) : Element → Element
  | .enumeration values o => if values.length < 2 then .simple .any o else .enumeration values o
  | .object attributes o => .object (unsignedAttributes mark attributes) o
  | .array item o => .array (unsigned mark item) o
  | .record value o => .record (unsigned mark value) o
  | .union branches o => .union (unsignedList mark branches) o
  | .function args returns o => .function [] none (mark (.function args returns o))
  | .lazy child o => .lazy (unsigned mark child) o
  | .literal text o => .literal text o
  | .simple kind o => .simple kind o
  | .reference target o => .reference target o
/-- A list of elements without signatures. -/
def unsignedList (mark : Element → Bool) : List Element → List Element
  | [] => []
  | e :: rest => unsigned mark e :: unsignedList mark rest
/-- Attributes without signatures. -/
def unsignedAttributes (mark : Element → Bool) :
    List (String × Element) → List (String × Element)
  | [] => []
  | (name, e) :: rest => (name, unsigned mark e) :: unsignedAttributes mark rest
end

theorem unsignedList_eq_map (mark : Element → Bool) (es : List Element) :
    unsignedList mark es = es.map (unsigned mark) := by
  induction es with
  | nil => rfl
  | cons e es ih => rw [unsignedList, ih, List.map_cons]

theorem unsignedAttributes_eq_map (mark : Element → Bool) (attributes : List (String × Element)) :
    unsignedAttributes mark attributes = attributes.map fun a => (a.1, unsigned mark a.2) := by
  induction attributes with
  | nil => rfl
  | cons a rest ih => rw [unsignedAttributes, ih, List.map_cons]

/-- What the description of an element tells of it: a function is marked if its
description ends in a mark. -/
def settled (e : Element) : Element := e.unsigned fun f => decide (0 < f.marks)

/-- A settled element without its mark. -/
def stem (e : Element) : Element := e.settled.withOptional false

/-- A settled element is marked if its description ends in a mark. -/
theorem settled_eq_withOptional (e : Element) :
    e.settled = e.stem.withOptional (decide (0 < e.marks)) := by
  have hmark : ∀ o : Bool, o = decide (0 < o.toNat) := by decide
  cases e with
  | enumeration values o =>
      rw [stem, settled, unsigned]
      split <;> exact congrArg _ (hmark o)
  | function args returns o => rfl
  | _ => exact congrArg _ (hmark _)

/-! ## The parts of a description -/

/-- The ways in which a description begins. -/
inductive Lead
  | simple (kind : SimpleKind)
  | literal
  | enumeration
  | object
  | array
  | record
  | union
  | function
  | lazy
  | reference
deriving DecidableEq

namespace Lead

/-- The form of what begins like this. -/
def form : Lead → Form
  | .simple _ => .simple
  | .literal => .literal
  | .enumeration => .enumeration
  | .object => .object
  | .array => .array
  | .record => .record
  | .union => .union
  | .function => .function
  | .lazy => .lazy
  | .reference => .reference

/-- The word of a beginning. -/
def word (policy : UnknownAttributes) : Lead → List Char
  | .simple kind => kind.word.toList
  | .literal => "literal(".toList
  | .enumeration => "enum[".toList
  | .object => if policy = .reject then "strictObject\x7b".toList else "object\x7b".toList
  | .array => "array<".toList
  | .record => "record<string, ".toList
  | .union => "union[".toList
  | .function => "function(".toList
  | .lazy => "lazy(() => ".toList
  | .reference => "ref(".toList

/-- All beginnings. -/
def all : List Lead :=
  [.simple .any, .simple .boolean, .simple .string, .simple .number, .literal, .enumeration,
    .object, .array, .record, .union, .function, .lazy, .reference]

theorem mem_all (lead : Lead) : lead ∈ all := by
  cases lead with
  | simple kind => cases kind <;> decide
  | _ => decide

private theorem prefixFree : ∀ policy ∈ [UnknownAttributes.ignore, .reject], ∀ a ∈ all,
    ∀ b ∈ all, a.word policy <+: b.word policy → a = b := by decide

private theorem mem_policies (policy : UnknownAttributes) :
    policy ∈ [UnknownAttributes.ignore, .reject] := by cases policy <;> decide

/-- No beginning continues another. -/
theorem word_append_inj {policy : UnknownAttributes} {a b : Lead} {rest more : List Char}
    (h : a.word policy ++ rest = b.word policy ++ more) : a = b ∧ rest = more := by
  have hlead : a = b := by
    have hleft : a.word policy <+: b.word policy ++ more := ⟨rest, h⟩
    have hright : b.word policy <+: b.word policy ++ more := ⟨more, rfl⟩
    rcases List.prefix_or_prefix_of_prefix hleft hright with hprefix | hprefix
    · exact prefixFree policy (mem_policies policy) a (mem_all a) b (mem_all b) hprefix
    · exact (prefixFree policy (mem_policies policy) b (mem_all b) a (mem_all a) hprefix).symm
  subst hlead
  exact ⟨rfl, List.append_cancel_left h⟩

private theorem begins : ∀ policy ∈ [UnknownAttributes.ignore, .reject], ∀ a ∈ all,
    (a.word policy).head?.any Char.isAlpha = true := by decide

/-- Every beginning begins with a letter. -/
theorem word_append_ne_cons {policy : UnknownAttributes} (a : Lead) {close : Char}
    (hclose : close.isAlpha = false) (rest more : List Char) :
    a.word policy ++ rest ≠ close :: more := by
  intro h
  have hbegins := begins policy (mem_policies policy) a (mem_all a)
  cases hword : a.word policy with
  | nil => simp [hword] at hbegins
  | cons c cs =>
      rw [hword, List.cons_append, List.cons.injEq] at h
      simp [hword, h.1, hclose] at hbegins

end Lead

/-- How the description of an element begins. -/
def lead : Element → Lead
  | .literal .. => .literal
  | .simple kind _ => .simple kind
  | .enumeration values _ => if values.length < 2 then .simple .any else .enumeration
  | .object .. => .object
  | .array .. => .array
  | .record .. => .record
  | .union .. => .union
  | .function .. => .function
  | .lazy .. => .lazy
  | .reference .. => .reference

section Written

variable (policy : UnknownAttributes)

/-- The description of an element, character by character. -/
def written (e : Element) : List Char := (e.describe policy).toList

/-- An attribute in the description of an object. -/
def writtenAttribute (a : String × Element) : List Char :=
  a.1.toList ++ (':' :: ' ' :: a.2.written policy)

/-- What comes between the beginning of a description and its marks. -/
def body : Element → List Char
  | .literal text _ => (Text.quote text).toList ++ [')']
  | .simple .. => []
  | .enumeration values _ =>
    if values.length < 2 then []
    else ", ".toList.intercalate (values.map fun v => (Text.quote v).toList) ++ [']']
  | .object attributes _ =>
    ", ".toList.intercalate (attributes.map (writtenAttribute policy)) ++ ['\x7d']
  | .array item _ => item.written policy ++ ['>']
  | .record value _ => value.written policy ++ ['>']
  | .union branches _ => " | ".toList.intercalate (branches.map (written policy)) ++ [']']
  | .function args none _ => ", ".toList.intercalate (args.map (written policy)) ++ [')']
  | .function args (some returns) _ =>
    ", ".toList.intercalate (args.map (written policy)) ++
      (')' :: (" -> ".toList ++ (returns.lead.word policy ++ body returns)))
  | .lazy child _ => child.written policy ++ [')']
  | .reference target _ => target.toList ++ [')']

/-- A description without its marks. -/
def core (e : Element) : List Char := e.lead.word policy ++ e.body policy

theorem describeList_eq_map (es : List Element) :
    describeList policy es = es.map (describe policy) := by
  induction es with
  | nil => rfl
  | cons e es ih => rw [describeList, ih, List.map_cons]

theorem describeAttributes_eq_map (attributes : List (String × Element)) :
    describeAttributes policy attributes = attributes.map fun a => (a.1, a.2.describe policy) := by
  induction attributes with
  | nil => rfl
  | cons a rest ih => rw [describeAttributes, ih, List.map_cons]

end Written

/-! ## Descriptions character by character -/

section Characters

open Description

private theorem toList_marked (o : Bool) (text : String) :
    (marked o text).toList = text.toList ++ List.replicate o.toNat '?' := by
  cases o <;> simp [marked, Description.optional]

private theorem toList_literal (text : String) :
    (Description.literal text).toList =
      "literal(".toList ++ ((Text.quote text).toList ++ [')']) := by
  rw [Description.literal, String.toList_append, String.toList_append, List.append_assoc]
  rfl

private theorem toList_enumeration (values : List String) :
    (Description.enumeration values).toList = "enum[".toList ++
      (", ".toList.intercalate (values.map fun v => (Text.quote v).toList) ++ [']']) := by
  rw [Description.enumeration, Text.quoteList, String.toList_append, String.toList_append,
    String.toList_append, String.toList_intercalate, List.map_map, ← List.append_assoc,
    ← List.append_assoc]
  rfl

private theorem toList_object (closed : Bool) (fields : List (String × String)) :
    (Description.object closed fields).toList =
      (if closed then "strictObject\x7b".toList else "object\x7b".toList) ++
        (", ".toList.intercalate (fields.map fun f => f.1.toList ++ (':' :: ' ' :: f.2.toList)) ++
          ['\x7d']) := by
  have hfield : ∀ f : String × String,
      (f.1 ++ ": " ++ f.2).toList = f.1.toList ++ (':' :: ' ' :: f.2.toList) := by
    intro f
    rw [String.toList_append, String.toList_append, List.append_assoc]
    rfl
  rw [Description.object, String.toList_append, String.toList_append, String.toList_intercalate,
    List.map_map, List.append_assoc]
  cases closed <;> simp only [Function.comp_def, hfield] <;> rfl

private theorem toList_array (item : String) :
    (Description.array item).toList = "array<".toList ++ (item.toList ++ ['>']) := by
  rw [Description.array, String.toList_append, String.toList_append, List.append_assoc]
  rfl

private theorem toList_record (value : String) :
    (Description.record value).toList = "record<string, ".toList ++ (value.toList ++ ['>']) := by
  show ("record<string, " ++ value ++ ">").toList = _
  rw [String.toList_append, String.toList_append, List.append_assoc]
  rfl

private theorem toList_union (branches : List String) :
    (Description.union branches).toList =
      "union[".toList ++ (" | ".toList.intercalate (branches.map String.toList) ++ [']']) := by
  rw [Description.union, String.toList_append, String.toList_append, String.toList_intercalate,
    List.append_assoc]
  rfl

private theorem toList_function (args : List String) (returns : Option String) :
    (Description.function args returns).toList = "function(".toList ++
      (", ".toList.intercalate (args.map String.toList) ++
        (')' :: (returns.map fun r => " -> ".toList ++ r.toList).getD [])) := by
  rw [Description.function, String.toList_append, String.toList_append, String.toList_append,
    String.toList_intercalate, List.append_assoc, List.append_assoc]
  cases returns with
  | none => rfl
  | some r =>
      rw [Option.map_some, Option.map_some, Option.getD_some, Option.getD_some,
        String.toList_append]
      rfl

private theorem toList_lazy (child : String) :
    (Description.lazy child).toList = "lazy(() => ".toList ++ (child.toList ++ [')']) := by
  rw [Description.lazy, String.toList_append, String.toList_append, List.append_assoc]
  rfl

private theorem toList_reference (target : String) :
    (Description.reference target).toList = "ref(".toList ++ (target.toList ++ [')']) := by
  rw [Description.reference, String.toList_append, String.toList_append, List.append_assoc]
  rfl

variable (policy : UnknownAttributes)

/-- A description is what it is without marks, followed by its marks. -/
theorem written_eq (e : Element) :
    e.written policy = e.core policy ++ List.replicate e.marks '?' := by
  induction e using Element.induction with
  | literal text o =>
      rw [written, describe, toList_marked, toList_literal]
      rfl
  | simple kind o =>
      rw [written, describe, toList_marked, core, body, List.append_nil]
      rfl
  | enumeration values o =>
      rw [written, describe, toList_marked, core, lead, body]
      by_cases hfew : values.length < 2
      · rw [if_pos hfew, if_pos hfew, if_pos hfew, List.append_nil]
        rfl
      · rw [if_neg hfew, if_neg hfew, if_neg hfew, toList_enumeration]
        rfl
  | object attributes o ih =>
      rw [written, describe, toList_marked, toList_object, describeAttributes_eq_map, List.map_map]
      cases policy <;> rfl
  | array item o ih =>
      rw [written, describe, toList_marked, toList_array]
      rfl
  | record value o ih =>
      rw [written, describe, toList_marked, toList_record]
      rfl
  | union branches o ih =>
      rw [written, describe, toList_marked, toList_union, describeList_eq_map, List.map_map]
      rfl
  | function args returns o hargs hreturns =>
      cases returns with
      | none =>
          rw [written, describe, toList_marked, toList_function, describeList_eq_map, List.map_map]
          rfl
      | some r =>
          have hresult : (r.describe policy).toList = r.core policy ++ List.replicate r.marks '?' :=
            hreturns r rfl
          have hcore : (function args (some r) o).core policy = "function(".toList ++
              (", ".toList.intercalate (args.map (written policy)) ++
                (')' :: (" -> ".toList ++ r.core policy))) := rfl
          rw [written, describe, toList_marked, toList_function, describeList_eq_map, List.map_map,
            Option.map_some, Option.getD_some, hresult, hcore, marks, List.replicate_add]
          simp only [List.append_assoc, List.cons_append]
          rfl
  | lazy child o ih =>
      rw [written, describe, toList_marked, toList_lazy]
      rfl
  | reference target o =>
      rw [written, describe, toList_marked, toList_reference]
      rfl

end Characters

/-! ## Names -/

/-- A character of a plain name. -/
def IsNameChar (c : Char) : Prop := c.isAlphanum = true ∨ c = '_'

instance : DecidablePred IsNameChar := fun c =>
  inferInstanceAs (Decidable (c.isAlphanum = true ∨ c = '_'))

/-- A name of letters, digits and underscores. -/
def IsPlainName (name : String) : Prop := ∀ c ∈ name.toList, IsNameChar c

-- of the instances that apply, this one looks only at the characters of the name
instance : DecidablePred IsPlainName := fun name =>
  List.decidableBAll IsNameChar name.toList

/-- An element uses plain names only. -/
def NamesPlainly : Element → Prop
  | .object attributes _ => ∀ a ∈ attributes, IsPlainName a.1
  | .reference target _ => IsPlainName target
  | _ => True

instance : DecidablePred NamesPlainly
  | .object attributes _ => inferInstanceAs (Decidable (∀ a ∈ attributes, IsPlainName a.1))
  | .reference target _ => inferInstanceAs (Decidable (IsPlainName target))
  | .literal .. | .simple .. | .enumeration .. | .array .. | .record .. | .union ..
  | .function .. | .lazy .. => isTrue trivial

/-- All names in an element are plain. -/
def WellNamed (e : Element) : Prop := e.Everywhere NamesPlainly

instance : DecidablePred WellNamed := fun e =>
  inferInstanceAs (Decidable (e.Everywhere NamesPlainly))

/-- A plain name ends at the first character that is no part of names. -/
private theorem name_append_inj {name other : String} (hname : IsPlainName name)
    (hother : IsPlainName other) {c : Char} (hc : ¬IsNameChar c) {rest more : List Char}
    (h : name.toList ++ c :: rest = other.toList ++ c :: more) : name = other ∧ rest = more := by
  obtain ⟨hchars, hrest⟩ := Text.word_append_inj hname hother hc hc h
  exact ⟨String.toList_inj.1 hchars, (List.cons.inj hrest).2⟩

/-! ## Reading -/

section Reading

open Text

/-- What follows is not what a function returns. -/
def NoArrow (rest : List Char) : Prop := ¬" -> ".toList <+: rest

/-- What follows is neither a mark nor what a function returns. -/
def Stops (rest : List Char) : Prop := NoArrow rest ∧ ¬['?'] <+: rest

theorem stops_cons {c : Char} (hspace : c ≠ ' ') (hmark : c ≠ '?') (rest : List Char) :
    Stops (c :: rest) := by
  constructor
  · rintro ⟨tail, htail⟩
    exact hspace (List.cons.inj htail).1.symm
  · rintro ⟨tail, htail⟩
    exact hmark (List.cons.inj htail).1.symm

private theorem parts_comma {close : Char} (hcomma : close ≠ ',') (hspace : close ≠ ' ')
    (hmark : close ≠ '?') : Parts Stops ", ".toList close where
  differ := fun rest more h => hcomma (List.cons.inj h).1.symm
  stopsAtSeparator := fun rest => stops_cons (by decide) (by decide) _
  stopsAtClose := fun rest => stops_cons hspace hmark rest

private theorem parts_bar : Parts Stops " | ".toList ']' where
  differ := fun rest more h => by cases (List.cons.inj h).1
  stopsAtSeparator := by
    intro rest
    constructor
    · rintro ⟨tail, htail⟩
      cases (List.cons.inj (List.cons.inj htail).2).1
    · rintro ⟨tail, htail⟩
      cases (List.cons.inj htail).1
  stopsAtClose := fun rest => stops_cons (by decide) (by decide) rest

variable {policy : UnknownAttributes}

/-- Marks end in front of what is no mark. -/
private theorem replicate_append_inj {m n : Nat} {rest more : List Char}
    (hrest : ¬['?'] <+: rest) (hmore : ¬['?'] <+: more)
    (h : List.replicate m '?' ++ rest = List.replicate n '?' ++ more) : m = n ∧ rest = more := by
  induction m generalizing n with
  | zero =>
      cases n with
      | zero => exact ⟨rfl, h⟩
      | succ n => exact absurd ⟨_, h.symm⟩ hrest
  | succ m ih =>
      cases n with
      | zero => exact absurd ⟨_, h⟩ hmore
      | succ n =>
          obtain ⟨hcount, hrest⟩ := ih (List.cons.inj h).2
          exact ⟨congrArg Nat.succ hcount, hrest⟩

private theorem noArrow_replicate_append {n : Nat} {rest : List Char} (h : NoArrow rest) :
    NoArrow (List.replicate n '?' ++ rest) := by
  cases n with
  | zero => exact h
  | succ n =>
      rintro ⟨tail, htail⟩
      cases (List.cons.inj htail).1

/-- Where the part before the marks can be read, the description can. -/
private theorem shows_written {e : Element}
    (h : Shows NoArrow (core policy) stem WellNamed e) :
    Shows Stops (written policy) settled WellNamed e := by
  intro f hf rest more hrest hmore heq
  rw [written_eq, written_eq, List.append_assoc, List.append_assoc] at heq
  obtain ⟨hstem, hmarks⟩ := h f hf _ _ (noArrow_replicate_append hrest.1)
    (noArrow_replicate_append hmore.1) heq
  obtain ⟨hcount, hsame⟩ := replicate_append_inj hrest.2 hmore.2 hmarks
  refine ⟨?_, hsame⟩
  rw [settled_eq_withOptional e, settled_eq_withOptional f, hstem, hcount]

/-- Two descriptions begin alike only if they begin with the same word. -/
private theorem core_append_inj {e f : Element} {rest more : List Char}
    (h : e.core policy ++ rest = f.core policy ++ more) :
    e.lead = f.lead ∧ e.body policy ++ rest = f.body policy ++ more := by
  rw [core, core, List.append_assoc, List.append_assoc] at h
  exact Lead.word_append_inj h

/-- A description does not begin with a bracket. -/
private theorem written_append_ne_cons (e : Element) {close : Char}
    (hclose : close.isAlpha = false) (rest more : List Char) :
    e.written policy ++ rest ≠ close :: more := by
  rw [written_eq, core, List.append_assoc, List.append_assoc]
  exact Lead.word_append_ne_cons e.lead hclose _ _

/-- The body of a primitive, and of an enumeration that restricts nothing, is
empty. -/
private theorem of_lead_simple (policy : UnknownAttributes) {e : Element} {kind : SimpleKind}
    (h : e.lead = .simple kind) : e.stem = .simple kind false ∧ e.body policy = [] := by
  cases e with
  | simple kind o =>
      cases h
      exact ⟨rfl, rfl⟩
  | enumeration values o =>
      rw [lead] at h
      split at h
      · next hfew =>
          cases h
          rw [stem, settled, unsigned, body, if_pos hfew, if_pos hfew]
          exact ⟨rfl, rfl⟩
      · cases h
  | _ => cases h

/-- Apart from primitives, the beginning of a description gives the form away. -/
private theorem form_eq_of_lead_eq {e f : Element} (h : e.lead = f.lead)
    (hlead : ∀ kind, e.lead ≠ .simple kind) : e.form = f.form := by
  have hform : ∀ g : Element, (∀ kind, g.lead ≠ .simple kind) → g.form = g.lead.form := by
    intro g hg
    cases g with
    | simple kind o => exact absurd rfl (hg kind)
    | enumeration values o =>
        rw [lead] at hg ⊢
        split at hg
        · exact absurd rfl (hg .any)
        · next hmany => rw [if_neg hmany]; rfl
    | _ => rfl
  rw [hform e hlead, hform f (h ▸ hlead), h]

/-- Where the description of an attribute's element can be read, the attribute can. -/
private theorem shows_attribute {a : String × Element} (hname : IsPlainName a.1)
    (h : Shows Stops (written policy) settled WellNamed a.2) :
    Shows Stops (writtenAttribute policy) (fun a => (a.1, a.2.settled))
      (fun a => IsPlainName a.1 ∧ a.2.WellNamed) a := by
  intro b hb rest more hrest hmore heq
  simp only [writtenAttribute, List.append_assoc, List.cons_append] at heq
  obtain ⟨hnames, hafter⟩ := name_append_inj hname hb.1 (by decide) heq
  obtain ⟨hsettled, hsame⟩ := h b.2 hb.2 rest more hrest hmore (List.cons.inj hafter).2
  exact ⟨Prod.ext hnames hsettled, hsame⟩

private theorem writtenAttribute_append_ne_cons {a : String × Element} (hname : IsPlainName a.1)
    (rest more : List Char) : writtenAttribute policy a ++ rest ≠ '\x7d' :: more := by
  intro h
  cases hchars : a.1.toList with
  | nil =>
      rw [writtenAttribute, hchars] at h
      cases (List.cons.inj h).1
  | cons c cs =>
      have hc : IsNameChar c := hname c (hchars ▸ List.mem_cons_self)
      rw [writtenAttribute, hchars] at h
      rw [(List.cons.inj h).1] at hc
      exact absurd hc (by decide)

private theorem quote_append_ne_bracket (text : String) (rest more : List Char) :
    (quote text).toList ++ rest ≠ ']' :: more := by
  simp [quote]

private theorem shows_quote (text : String) :
    Shows (fun _ => True) (fun v => (quote v).toList) id (fun _ => True) text :=
  fun _ _ _ _ _ _ h => quote_append_inj h

private theorem body_function_none (args : List Element) (o : Bool) (rest : List Char) :
    (function args none o).body policy ++ rest =
      ", ".toList.intercalate (args.map (written policy)) ++ ')' :: rest := by
  rw [body, List.append_assoc, List.singleton_append]

private theorem body_function_some (args : List Element) (r : Element) (o : Bool)
    (rest : List Char) :
    (function args (some r) o).body policy ++ rest =
      ", ".toList.intercalate (args.map (written policy)) ++
        ')' :: (" -> ".toList ++ (r.core policy ++ rest)) := by
  rw [body, List.append_assoc, List.cons_append, List.append_assoc, core]

/-- A description can be read if its body can, among those of its form. -/
private theorem shows_of_body {e : Element} (hlead : ∀ kind, e.lead ≠ .simple kind)
    (hread : ∀ f : Element, f.WellNamed → e.lead = f.lead → e.form = f.form →
      ∀ rest more, NoArrow rest → NoArrow more →
        e.body policy ++ rest = f.body policy ++ more → e.stem = f.stem ∧ rest = more) :
    Shows NoArrow (core policy) stem WellNamed e := by
  intro f hf rest more hrest hmore h
  obtain ⟨hsame, hbody⟩ := core_append_inj h
  exact hread f hf hsame (form_eq_of_lead_eq hsame hlead) rest more hrest hmore hbody

/-- A description between a word and a bracket can be read. -/
private theorem enclosed_append_inj {child other : Element} {close : Char} {rest more : List Char}
    (h : Shows Stops (written policy) settled WellNamed child) (hother : other.WellNamed)
    (hspace : close ≠ ' ') (hmark : close ≠ '?')
    (heq : child.written policy ++ [close] ++ rest = other.written policy ++ [close] ++ more) :
    child.settled = other.settled ∧ rest = more := by
  rw [List.append_assoc, List.append_assoc, List.singleton_append, List.singleton_append] at heq
  obtain ⟨hsettled, hclosed⟩ := h other hother _ _ (stops_cons hspace hmark rest)
    (stops_cons hspace hmark more) heq
  exact ⟨hsettled, (List.cons.inj hclosed).2⟩

private theorem shows_literal (text : String) (o : Bool) :
    Shows NoArrow (core policy) stem WellNamed (literal text o) := by
  refine shows_of_body (by rintro kind ⟨⟩) fun f _ _ hform rest more _ _ hbody => ?_
  cases f with
  | literal other p =>
      rw [body, body, List.append_assoc, List.append_assoc] at hbody
      obtain ⟨rfl, hclosed⟩ := quote_append_inj hbody
      exact ⟨rfl, (List.cons.inj hclosed).2⟩
  | _ => cases hform

private theorem shows_simple {e : Element} {kind : SimpleKind} (h : e.lead = .simple kind) :
    Shows NoArrow (core policy) stem WellNamed e := by
  intro f _ rest more _ _ heq
  obtain ⟨hlead, hbody⟩ := core_append_inj heq
  obtain ⟨hstem, hempty⟩ := of_lead_simple policy h
  obtain ⟨hother, hnone⟩ := of_lead_simple policy (hlead ▸ h)
  rw [hempty, hnone] at hbody
  exact ⟨hstem.trans hother.symm, hbody⟩

private theorem shows_enumeration {values : List String} (hmany : ¬values.length < 2) (o : Bool) :
    Shows NoArrow (core policy) stem WellNamed (enumeration values o) := by
  have hlead : (enumeration values o).lead = .enumeration := if_neg hmany
  refine shows_of_body (by rw [hlead]; rintro kind ⟨⟩)
    fun f _ hsame hform rest more _ _ hbody => ?_
  cases f with
  | enumeration others p =>
      have hothers : ¬others.length < 2 := by
        intro hfew
        rw [hlead, lead, if_pos hfew] at hsame
        cases hsame
      have hparts : Parts (fun _ => True) ", ".toList ']' :=
        ⟨(parts_comma (by decide) (by decide) (by decide)).differ, fun _ => trivial,
          fun _ => trivial⟩
      rw [body, body, if_neg hmany, if_neg hothers, List.append_assoc, List.append_assoc] at hbody
      obtain ⟨hvalues, hrest⟩ := intercalate_append_inj hparts (fun v _ => shows_quote v)
        (fun _ _ => trivial) (fun v _ => quote_append_ne_bracket v) hbody
      rw [List.map_id, List.map_id] at hvalues
      refine ⟨?_, hrest⟩
      rw [stem, stem, settled, settled, unsigned, unsigned, if_neg hmany, if_neg hothers, hvalues]
      rfl
  | _ => cases hform

private theorem shows_object {attributes : List (String × Element)} {o : Bool}
    (he : (object attributes o).WellNamed)
    (h : ∀ a ∈ attributes, Shows Stops (written policy) settled WellNamed a.2) :
    Shows NoArrow (core policy) stem WellNamed (object attributes o) := by
  refine shows_of_body (by rintro kind ⟨⟩) fun f hf _ hform rest more _ _ hbody => ?_
  cases f with
  | object others p =>
      obtain ⟨hnames, -⟩ := everywhere_object_iff.1 he
      obtain ⟨hothers, hwell⟩ := everywhere_object_iff.1 hf
      have hbegin : ∀ a ∈ attributes ++ others, IsPlainName a.1 := fun a ha =>
        (List.mem_append.1 ha).elim (hnames a) (hothers a)
      rw [body, body, List.append_assoc, List.append_assoc] at hbody
      obtain ⟨hsettled, hrest⟩ := intercalate_append_inj
        (parts_comma (by decide) (by decide) (by decide))
        (fun a ha => shows_attribute (hnames a ha) (h a ha))
        (fun b hb => ⟨hothers b hb, hwell b hb⟩)
        (fun a ha => writtenAttribute_append_ne_cons (hbegin a ha)) hbody
      refine ⟨?_, hrest⟩
      rw [stem, stem, settled, settled, unsigned, unsigned, unsignedAttributes_eq_map,
        unsignedAttributes_eq_map]
      exact congrArg (object · false) hsettled
  | _ => cases hform

private theorem shows_union {branches : List Element} {o : Bool}
    (h : ∀ e ∈ branches, Shows Stops (written policy) settled WellNamed e) :
    Shows NoArrow (core policy) stem WellNamed (union branches o) := by
  refine shows_of_body (by rintro kind ⟨⟩) fun f hf _ hform rest more _ _ hbody => ?_
  cases f with
  | union others p =>
      obtain ⟨-, hwell⟩ := everywhere_union_iff.1 hf
      rw [body, body, List.append_assoc, List.append_assoc] at hbody
      obtain ⟨hsettled, hrest⟩ := intercalate_append_inj parts_bar h hwell
        (fun e _ => written_append_ne_cons e (by decide)) hbody
      refine ⟨?_, hrest⟩
      rw [stem, stem, settled, settled, unsigned, unsigned, unsignedList_eq_map,
        unsignedList_eq_map]
      exact congrArg (union · false) hsettled
  | _ => cases hform

private theorem shows_function {args : List Element} {returns : Option Element} {o : Bool}
    (hargs : ∀ e ∈ args, Shows Stops (written policy) settled WellNamed e)
    (hreturns : ∀ r, returns = some r → Shows NoArrow (core policy) stem WellNamed r) :
    Shows NoArrow (core policy) stem WellNamed (function args returns o) := by
  refine shows_of_body (by rintro kind ⟨⟩) fun f hf _ hform rest more hrest hmore hbody => ?_
  cases f with
  | function others result p =>
      obtain ⟨-, hwell, hresult⟩ := everywhere_function_iff.1 hf
      refine ⟨rfl, ?_⟩
      -- behind the arguments stands what is returned, if anything, and then the rest
      have hafter : ∀ {tail other : List Char},
          ", ".toList.intercalate (args.map (written policy)) ++ ')' :: tail =
            ", ".toList.intercalate (others.map (written policy)) ++ ')' :: other →
          tail = other := fun heq =>
        (intercalate_append_inj (parts_comma (by decide) (by decide) (by decide)) hargs hwell
          (fun e _ => written_append_ne_cons e (by decide)) heq).2
      cases returns with
      | none =>
          cases result with
          | none =>
              rw [body_function_none, body_function_none] at hbody
              exact hafter hbody
          | some s =>
              rw [body_function_none, body_function_some] at hbody
              exact absurd ⟨_, (hafter hbody).symm⟩ hrest
      | some r =>
          cases result with
          | none =>
              rw [body_function_some, body_function_none] at hbody
              exact absurd ⟨_, hafter hbody⟩ hmore
          | some s =>
              rw [body_function_some, body_function_some] at hbody
              have hcores := List.append_cancel_left (hafter hbody)
              exact (hreturns r rfl s (hresult s rfl) rest more hrest hmore hcores).2
  | _ => cases hform

/-- The parts of a description can be read: where it begins like another, with
something behind it that no function returns, both have one stem and the same
behind them. -/
theorem shows_core (e : Element) (he : e.WellNamed) :
    Shows NoArrow (core policy) stem WellNamed e := by
  induction e using Element.induction with
  | literal text o => exact shows_literal text o
  | simple kind o => exact shows_simple rfl
  | enumeration values o =>
      by_cases hfew : values.length < 2
      · exact shows_simple (if_pos hfew)
      · exact shows_enumeration hfew o
  | object attributes o ih =>
      obtain ⟨-, hwell⟩ := everywhere_object_iff.1 he
      exact shows_object he fun a ha => shows_written (ih a ha (hwell a ha))
  | array item o ih =>
      have hitem := shows_written (ih (everywhere_array_iff.1 he).2)
      refine shows_of_body (by rintro kind ⟨⟩) fun f hf _ hform rest more _ _ hbody => ?_
      cases f with
      | array other p =>
          obtain ⟨hsettled, hrest⟩ := enclosed_append_inj hitem (everywhere_array_iff.1 hf).2
            (by decide) (by decide) hbody
          exact ⟨congrArg (array · false) hsettled, hrest⟩
      | _ => cases hform
  | record value o ih =>
      have hvalue := shows_written (ih (everywhere_record_iff.1 he).2)
      refine shows_of_body (by rintro kind ⟨⟩) fun f hf _ hform rest more _ _ hbody => ?_
      cases f with
      | record other p =>
          obtain ⟨hsettled, hrest⟩ := enclosed_append_inj hvalue (everywhere_record_iff.1 hf).2
            (by decide) (by decide) hbody
          exact ⟨congrArg (record · false) hsettled, hrest⟩
      | _ => cases hform
  | union branches o ih =>
      obtain ⟨-, hwell⟩ := everywhere_union_iff.1 he
      exact shows_union fun e hmem => shows_written (ih e hmem (hwell e hmem))
  | function args returns o hargs hreturns =>
      obtain ⟨-, hwell, hresult⟩ := everywhere_function_iff.1 he
      exact shows_function (fun e hmem => shows_written (hargs e hmem (hwell e hmem)))
        fun r hr => hreturns r hr (hresult r hr)
  | lazy child o ih =>
      have hchild := shows_written (ih (everywhere_lazy_iff.1 he).2)
      refine shows_of_body (by rintro kind ⟨⟩) fun f hf _ hform rest more _ _ hbody => ?_
      cases f with
      | lazy other p =>
          obtain ⟨hsettled, hrest⟩ := enclosed_append_inj hchild (everywhere_lazy_iff.1 hf).2
            (by decide) (by decide) hbody
          exact ⟨congrArg (lazy · false) hsettled, hrest⟩
      | _ => cases hform
  | reference target o =>
      refine shows_of_body (by rintro kind ⟨⟩) fun f hf _ hform rest more _ _ hbody => ?_
      cases f with
      | reference other p =>
          rw [body, body, List.append_assoc, List.append_assoc] at hbody
          obtain ⟨rfl, hrest⟩ := name_append_inj (everywhere_reference_iff.1 he)
            (everywhere_reference_iff.1 hf) (by decide) hbody
          exact ⟨rfl, hrest⟩
      | _ => cases hform

end Reading

/-- Two elements with one description are the same once settled. -/
theorem settled_eq_of_describe_eq {policy : UnknownAttributes} {e f : Element}
    (he : e.WellNamed) (hf : f.WellNamed) (h : e.describe policy = f.describe policy) :
    e.settled = f.settled := by
  have hwritten : e.written policy ++ [] = f.written policy ++ [] := by
    rw [written, written, h]
  have hstops : Stops [] := ⟨by simp [NoArrow], by simp⟩
  exact (shows_written (shows_core e he) f hf [] [] hstops hstops hwritten).1

end Element

end SchemaSets
