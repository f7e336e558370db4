import SchemaSets.Keyed
import SchemaSets.Text.Edit.Script
import SchemaSets.Text.Words

/-!
# Comparing descriptions

Two maps from names to descriptions are compared name by name.  A name on one
side only is told with its description; where both sides have a name and differ,
the difference is told by the words that were removed and added.
-/

namespace SchemaSets

/-- One difference between two maps of descriptions. -/
inductive DescriptionDiff
  | onlyLeft (name description : String)
  | onlyRight (name description : String)
  | changed (name : String) (removed added : List String)
deriving DecidableEq, Repr

namespace DescriptionDiff

/-- The name that differs. -/
def name : DescriptionDiff → String
  | .onlyLeft name _ | .onlyRight name _ | .changed name _ _ => name

/-- The difference between two texts by words. -/
def ofTexts (name left right : String) : DescriptionDiff :=
  let edits := Text.Edit.script (Text.tokens left) (Text.tokens right)
  let words := List.filter fun token => !Text.isGap token
  .changed name (words (Text.Edit.changed .deletion edits)) (words (Text.Edit.changed .insertion edits))

/-- The difference at a name of the left map. -/
def atLeft? (right : List (String × String)) (name left : String) : Option DescriptionDiff :=
  match Keyed.find? name right with
  | none => some (.onlyLeft name left)
  | some text => if left = text then none else some (ofTexts name left text)

/-- All differences: those at the names of the left map in order, then the
names that only the right map has. -/
def between (left right : List (String × String)) : List DescriptionDiff :=
  (left.filterMap fun entry => atLeft? right entry.1 entry.2) ++
    (right.filter fun entry => !Keyed.contains entry.1 left).map fun entry =>
      .onlyRight entry.1 entry.2

end DescriptionDiff
end SchemaSets
