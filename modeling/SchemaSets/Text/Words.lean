import SchemaSets.Text.Blank

/-!
# Words

A text is cut into its words and the gaps between them: the longest runs of
characters that are all white space or all not.  The runs put together are the
text, so nothing is lost by cutting.
-/

namespace SchemaSets.Text

/-- The longest runs of characters that agree in a property. -/
def runs (p : Char → Bool) : List Char → List (List Char)
  | [] => []
  | c :: rest =>
    match runs p rest with
    | (d :: run) :: more =>
      if p c = p d then (c :: d :: run) :: more else [c] :: (d :: run) :: more
    | more => [c] :: more

/-- The runs put together are the text. -/
theorem flatten_runs (p : Char → Bool) (cs : List Char) : (runs p cs).flatten = cs := by
  induction cs with
  | nil => rfl
  | cons c rest ih =>
    simp only [runs]
    split
    · rename_i h
      split <;> simp_all
    · simp [ih]

/-- The words of a text and the gaps between them. -/
def tokens (text : String) : List String := (runs isBlank text.toList).map String.ofList

/-- Whether a token is a gap. -/
def isGap (token : String) : Bool := token.toList.all isBlank

/-- The words of a text. -/
def words (text : String) : List String := (tokens text).filter fun token => !isGap token

end SchemaSets.Text
