import SchemaSets.Text.Pattern.CharSet

/-!
# Patterns

A pattern tells which stretches of a text it takes.  The places of a text lie
before, between and after its characters.  From a place, a pattern leads to the
places at which a stretch that it takes may end; `ends` lists them.  A text
holds a pattern if the pattern leads from some place to any place.

Repetition takes its inner pattern as often as it has to, and then goes on to
whatever places further rounds reach.  One round more than the text has
characters reaches nothing new, so that many suffice where no bound is given.
-/

namespace SchemaSets.Text

/-- What a pattern can ask of a place. -/
inductive Edge
  | textStart
  | textEnd
  | lineStart
  | lineEnd
  | wordEdge
  | notWordEdge
deriving DecidableEq, Repr

/-- A pattern. -/
inductive Pattern
  | empty
  | one (anyCase : Bool) (set : CharSet)
  | edge (kind : Edge)
  | both (first second : Pattern)
  | either (first second : Pattern)
  | repeated (inner : Pattern) (least : Nat) (most : Option Nat)
  | farthest (inner : Pattern)
  | look (ahead wanted : Bool) (inner : Pattern)
deriving DecidableEq, Repr

/-- Whether a character of a text belongs to a word. -/
def inWord (text : List Char) (place : Nat) : Bool :=
  text[place]?.any (CharSet.word.contains false)

/-- Whether a place of a text is an edge. -/
def Edge.isAt (text : List Char) (place : Nat) : Edge → Bool
  | .textStart => place = 0
  | .textEnd => place = text.length
  | .lineStart => place = 0 || text[place - 1]? = some '\n'
  | .lineEnd => place = text.length || text[place]? = some '\n'
  | .wordEdge => (0 < place && inWord text (place - 1)) != inWord text place
  | .notWordEdge => (0 < place && inWord text (place - 1)) == inWord text place

namespace Pattern

/-- The places of a text. -/
def places (text : List Char) : List Nat := List.range (text.length + 1)

/-- The places that a step leads to from some places. -/
def onward (step : Nat → List Nat) (starts : List Nat) : List Nat :=
  (starts.flatMap step).eraseDups

/-- The places after a number of steps. -/
def after (step : Nat → List Nat) : Nat → List Nat → List Nat
  | 0, starts => starts
  | n + 1, starts => after step n (onward step starts)

/-- The places within a number of steps. -/
def within (step : Nat → List Nat) : Nat → List Nat → List Nat
  | 0, starts => starts
  | n + 1, starts => within step n (starts ++ onward step starts).eraseDups

/-- The places at which a pattern may end that starts at a place. -/
def ends (text : List Char) : Pattern → Nat → List Nat
  | .empty, i => [i]
  | .one anyCase set, i => if text[i]?.any (set.contains anyCase) then [i + 1] else []
  | .edge kind, i => if kind.isAt text i then [i] else []
  | .both first second, i => onward (second.ends text) (first.ends text i)
  | .either first second, i => (first.ends text i ++ second.ends text i).eraseDups
  | .repeated inner least most, i =>
    let rounds := text.length + 1
    let more := (most.map fun most => min (most - least) rounds).getD rounds
    within (inner.ends text) more (after (inner.ends text) least [i])
  | .farthest inner, i => (inner.ends text i).max?.toList
  | .look ahead wanted inner, i =>
    let found :=
      if ahead then !(inner.ends text i).isEmpty
      else (places text).any fun j => j ≤ i && (inner.ends text j).contains i
    if found = wanted then [i] else []

/-- Whether a text holds a pattern. -/
def occursIn (pattern : Pattern) (text : String) : Bool :=
  (places text.toList).any fun i => !(pattern.ends text.toList i).isEmpty

/-- How many characters a pattern takes, if that is always the same. -/
def width? : Pattern → Option Nat
  | .empty | .edge _ | .look _ _ _ => some 0
  | .one _ _ => some 1
  | .both first second => return (← first.width?) + (← second.width?)
  | .either first second => if first.width? = second.width? then first.width? else none
  | .repeated inner least most =>
    if most = some least then inner.width?.map (least * ·) else none
  | .farthest inner => inner.width?

/-- One pattern after another; nothing is left of an empty one. -/
def append (first second : Pattern) : Pattern :=
  if first = .empty then second else if second = .empty then first else .both first second

end Pattern
end SchemaSets.Text
