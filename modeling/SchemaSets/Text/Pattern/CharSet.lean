import SchemaSets.Text.Blank

/-!
# Sets of characters

What a pattern asks of one character: that it lies in a range, is blank, or is
told apart by sets that are joined, met or turned around.

Digits and the characters of words are those of ASCII.  Case is compared for the
Latin letters, with the two characters beyond ASCII that share a lower or upper
form with one of them: the Kelvin sign and the long s.
-/

namespace SchemaSets.Text

/-- A set of characters. -/
inductive CharSet
  | range (low high : Char)
  | blank
  | either (s t : CharSet)
  | both (s t : CharSet)
  | outside (s : CharSet)
deriving DecidableEq, Repr

namespace CharSet

/-- The characters that differ from a character in case at most. -/
def caseVariants (c : Char) : List Char :=
  let lower := if c = '\u212a' then 'k' else if c = '\u017f' then 's' else c.toLower
  let others := if lower = 'k' then ['\u212a'] else if lower = 's' then ['\u017f'] else []
  c :: lower :: lower.toUpper :: others

/-- Whether a character is in a set, with or without regard to case. -/
def contains (anyCase : Bool) : CharSet → Char → Bool
  | .range low high, c =>
    (if anyCase then caseVariants c else [c]).any fun d => low ≤ d && d ≤ high
  | .blank, c => isBlank c
  | .either s t, c => s.contains anyCase c || t.contains anyCase c
  | .both s t, c => s.contains anyCase c && t.contains anyCase c
  | .outside s, c => !s.contains anyCase c

/-- The set of one character. -/
def single (c : Char) : CharSet := .range c c

/-- The set of a character and the characters of a list. -/
def oneOf (c : Char) (cs : List Char) : CharSet :=
  cs.foldl (fun s c => .either s (single c)) (single c)

/-- No character. -/
def nothing : CharSet := .both .blank (.outside .blank)

/-- The decimal digits. -/
def digit : CharSet := .range '0' '9'

/-- The lower-case letters. -/
def lower : CharSet := .range 'a' 'z'

/-- The upper-case letters. -/
def upper : CharSet := .range 'A' 'Z'

/-- The letters. -/
def alpha : CharSet := .either lower upper

/-- The letters and digits. -/
def alnum : CharSet := .either digit alpha

/-- The characters of words. -/
def word : CharSet := .either alnum (single '_')

/-- The hexadecimal digits. -/
def hexDigit : CharSet := .either digit (.either (.range 'a' 'f') (.range 'A' 'F'))

/-- The characters of ASCII that leave a mark. -/
def graph : CharSet := .range '!' '~'

/-- The sets that have a name of their own between brackets. -/
def named : List (String × CharSet) :=
  [("alnum", alnum), ("alpha", alpha), ("ascii", .range '\x00' '\x7f'), ("blank", oneOf ' ' ['\t']),
   ("cntrl", .either (.range '\x00' '\x1f') (single '\x7f')), ("digit", digit), ("graph", graph),
   ("lower", lower), ("print", .range ' ' '~'), ("punct", .both graph (.outside alnum)),
   ("space", oneOf ' ' ['\t', '\n', '\x0b', '\x0c', '\x0d']), ("upper", upper), ("word", word),
   ("xdigit", hexDigit)]

end CharSet
end SchemaSets.Text
