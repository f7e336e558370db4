import SchemaSets.Text.Hidden

/-!
# Blank characters

The characters with the Unicode property `White_Space`.  They part the words
of a description and are what trimming removes.
-/

namespace SchemaSets.Text

/-- Closed ranges of the code points with the property `White_Space`. -/
def blankRanges : List (Nat × Nat) :=
  [(0x9, 0xd), (0x20, 0x20), (0x85, 0x85), (0xa0, 0xa0), (0x1680, 0x1680),
   (0x2000, 0x200a), (0x2028, 0x2029), (0x202f, 0x202f), (0x205f, 0x205f),
   (0x3000, 0x3000)]

/-- Whether a character is white space. -/
def isBlank (c : Char) : Bool := inRanges blankRanges c.toNat

end SchemaSets.Text
