import SchemaSets.Json.Basic

/-!
# JSON pointers

A pointer leads from a document to a document inside it by a list of tokens,
each a member's key or an item's position.  In its written form every token
follows a slash; a tilde inside a token is written `~0` and a slash `~1`.
-/

namespace SchemaSets.Json.Pointer

/-- The written form of a character of a token. -/
def escapeChar (c : Char) : List Char :=
  if c = '~' then ['~', '0'] else if c = '/' then ['~', '1'] else [c]

/-- The written form of a token. -/
def escapeChars (cs : List Char) : List Char := cs.flatMap escapeChar

/-- The written form of a token. -/
def escape (token : String) : String := String.ofList (escapeChars token.toList)

/-- The characters of a token from its written form. -/
def unescapeChars : List Char → List Char
  | '~' :: '0' :: rest => '~' :: unescapeChars rest
  | '~' :: '1' :: rest => '/' :: unescapeChars rest
  | c :: rest => c :: unescapeChars rest
  | [] => []

/-- The parts between slashes; there is one more of them than slashes. -/
def splitSlash : List Char → List (List Char)
  | [] => [[]]
  | c :: rest =>
    if c = '/' then [] :: splitSlash rest
    else match splitSlash rest with
      | [] => [[c]]
      | part :: parts => (c :: part) :: parts

/-- The tokens of a written pointer.  The empty pointer has none, and any other
starts with a slash. -/
def tokens? : List Char → Option (List String)
  | [] => some []
  | '/' :: rest => some ((splitSlash rest).map fun part => String.ofList (unescapeChars part))
  | _ => none

/-- The position that a token stands for: digits without a leading zero. -/
def position? (token : String) : Option Nat :=
  match token.toList with
  | ['0'] => some 0
  | '0' :: _ => none
  | _ => if token.toList.all Char.isDigit then token.toNat? else none

/-- The document that a list of tokens leads to. -/
def follow? : List String → Json → Option Json
  | [], document => some document
  | token :: rest, .object members => (Keyed.find? token members).bind (follow? rest)
  | token :: rest, .array items => (position? token).bind fun i => items[i]?.bind (follow? rest)
  | _ :: _, _ => none

end SchemaSets.Json.Pointer
