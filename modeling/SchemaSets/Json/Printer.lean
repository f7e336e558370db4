import SchemaSets.Json.Basic
import SchemaSets.Decimal.Format

/-!
# Writing JSON text

Two layouts.  The compact one has no blanks; the pretty one puts every item
and member on a line of its own, two columns deeper than its container, with a
blank after each colon, and leaves empty containers on one line.

In a string the quote, the backslash and the controls below the space are
escaped, five controls by short names and the rest by code point in four
hexadecimal digits; every other character stands as it is.
-/

namespace SchemaSets.Json

/-- A number below sixteen as a lower-case hexadecimal digit. -/
def hexDigit (n : Nat) : Char := Nat.digitChar n

/-- The written form of one character of a string. -/
def escapeChar (c : Char) : List Char :=
  if c = '"' then ['\\', '"']
  else if c = '\\' then ['\\', '\\']
  else if c = '\x08' then ['\\', 'b']
  else if c = '\x0c' then ['\\', 'f']
  else if c = '\n' then ['\\', 'n']
  else if c = '\r' then ['\\', 'r']
  else if c = '\t' then ['\\', 't']
  else if c < ' ' then ['\\', 'u', '0', '0', hexDigit (c.toNat / 16), hexDigit (c.toNat % 16)]
  else [c]

/-- A string between quotes. -/
def stringChars (s : String) : List Char :=
  '"' :: (s.toList.flatMap escapeChar ++ ['"'])

/-- The text of a number. -/
def Number.chars : Number → List Char
  | .integer n => (toString n).toList
  | .double x => (Decimal.json x).toList

mutual
/-- The compact layout. -/
def compactChars : Json → List Char
  | .null => ['n', 'u', 'l', 'l']
  | .bool true => ['t', 'r', 'u', 'e']
  | .bool false => ['f', 'a', 'l', 's', 'e']
  | .number n => n.chars
  | .string s => stringChars s
  | .array items => '[' :: compactItems items
  | .object members => '\x7b' :: compactMembers members
/-- Items with their commas and the closing bracket. -/
def compactItems : List Json → List Char
  | [] => [']']
  | [item] => compactChars item ++ [']']
  | item :: rest => compactChars item ++ ',' :: compactItems rest
/-- Members with their commas and the closing brace. -/
def compactMembers : List (String × Json) → List Char
  | [] => ['\x7d']
  | [(key, value)] => stringChars key ++ ':' :: compactChars value ++ ['\x7d']
  | (key, value) :: rest =>
    stringChars key ++ ':' :: compactChars value ++ ',' :: compactMembers rest
end

/-- A line break followed by the blanks of a level. -/
def lineBreak (level : Nat) : List Char := '\n' :: List.replicate (2 * level) ' '

mutual
/-- The pretty layout of a document whose container stands at `level`. -/
def prettyChars (level : Nat) : Json → List Char
  | .array [] => ['[', ']']
  | .array (item :: rest) => '[' :: prettyItems (level + 1) (item :: rest)
  | .object [] => ['\x7b', '\x7d']
  | .object (member :: rest) => '\x7b' :: prettyMembers (level + 1) (member :: rest)
  | .null => compactChars .null
  | .bool b => compactChars (.bool b)
  | .number n => compactChars (.number n)
  | .string s => compactChars (.string s)
/-- Items on lines of their own, then the closing bracket one level out. -/
def prettyItems (level : Nat) : List Json → List Char
  | [] => []
  | [item] => lineBreak level ++ prettyChars level item ++ lineBreak (level - 1) ++ [']']
  | item :: rest => lineBreak level ++ prettyChars level item ++ ',' :: prettyItems level rest
/-- Members on lines of their own, then the closing brace one level out. -/
def prettyMembers (level : Nat) : List (String × Json) → List Char
  | [] => []
  | [(key, value)] =>
    lineBreak level ++ stringChars key ++ [':', ' '] ++ prettyChars level value ++
      lineBreak (level - 1) ++ ['\x7d']
  | (key, value) :: rest =>
    lineBreak level ++ stringChars key ++ [':', ' '] ++ prettyChars level value ++
      ',' :: prettyMembers level rest
end

/-- The compact text of a document. -/
def compact (document : Json) : String := String.ofList (compactChars document)

/-- The pretty text of a document. -/
def pretty (document : Json) : String := String.ofList (prettyChars 0 document)

end SchemaSets.Json
