import SchemaSets.Text.Hidden

/-!
# Quoted text

The form in which a text appears inside a longer one: between double quotes,
with a backslash before the quote and the backslash, short names for four
controls, and the code point in braces for every other character that would
not be seen.  An apostrophe stands as it is.

Escapes are chosen character by character, so the written form of a text is
the concatenation of the written forms of its characters.
-/

namespace SchemaSets.Text

/-- Lower-case hexadecimal digits of a number, without leading zeros. -/
def hexDigits (n : Nat) : List Char := Nat.toDigits 16 n

/-- The written form of one character inside quotes. -/
def escapeChar (c : Char) : List Char :=
  if c = '\x00' then ['\\', '0']
  else if c = '\t' then ['\\', 't']
  else if c = '\n' then ['\\', 'n']
  else if c = '\r' then ['\\', 'r']
  else if c = '"' then ['\\', '"']
  else if c = '\\' then ['\\', '\\']
  else if isHidden c then ['\\', 'u', '\x7b'] ++ hexDigits c.toNat ++ ['\x7d']
  else [c]

/-- The written form of a text, without the quotes around it. -/
def escapeChars (cs : List Char) : List Char := cs.flatMap escapeChar

/-- A text between quotes. -/
def quote (s : String) : String :=
  String.ofList ('"' :: (escapeChars s.toList ++ ['"']))

/-- Quoted texts between brackets, parted by a comma and a space. -/
def quoteList (texts : List String) : String :=
  "[" ++ ", ".intercalate (texts.map quote) ++ "]"

end SchemaSets.Text
