import SchemaSets.Decimal.Reader
import SchemaSets.Toml.Basic

/-!
# Layers of settings

Settings come from several sources, each a table, which are laid over one
another.  A later source replaces single values and goes down into tables, so
that what it does not mention stays.  The case of keys does not matter, at any
depth.

A key at the top level of a source, and the name of a variable, may be a path:
a key, then keys after points and positions between brackets.  Laying something
at a path makes whatever is missing on the way, and replaces what is in the
way: a step by key needs a table, a step by position a list with that position.
-/

namespace SchemaSets.Layers

/-! ## Keys -/

/-- A character in lower case, as far as that is a letter from `a` to `z`.  Of
the characters beyond ASCII only the Kelvin sign has such a form. -/
def lowerChar (c : Char) : Char := if c = '\u212a' then 'k' else c.toLower

/-- A key without its case. -/
def lower (key : String) : String := .ofList (key.toList.map lowerChar)

mutual
/-- Lays a value over what a key has. -/
def put (key : String) : Toml → List (String × Toml) → List (String × Toml)
  | .table incoming, entries =>
    let target := (Keyed.find? (lower key) entries).getD (.table [])
    Keyed.insert (lower key) (putAll incoming target) entries
  | value, entries => Keyed.insert (lower key) value entries
/-- Lays the entries of a table over a value, which becomes a table if there is
anything to lay over it. -/
def putAll : List (String × Toml) → Toml → Toml
  | [], target => target
  | (key, value) :: rest, target => putAll rest (.table (put key value target.entries))
end

/-! ## Paths -/

/-- A step of a path. -/
inductive Step
  | key (name : String)
  | position (index : Int)
deriving DecidableEq, Repr

/-- Whether a character may stand in a key of a path. -/
def isPathChar (c : Char) : Bool := c.isAlphanum || c == '_' || c == '-' || c == ' '

/-- The position between two brackets: digits, after a minus sign if it counts
from the end, with blanks around. -/
def position? (cs : List Char) : Option Int := do
  let isGap (c : Char) : Bool := c == ' ' || c == '\t'
  let word := ((cs.dropWhile isGap).reverse.dropWhile isGap).reverse
  if word.head? = some '+' then none
  else
    let n ← Decimal.readInteger? (.ofList word)
    if -0x8000000000000000 ≤ n ∧ n < 0x8000000000000000 then some n else none

/-- The steps that a text is made of. -/
def steps? (cs : List Char) : Option (List Step) :=
  match cs with
  | [] => some []
  | '.' :: rest =>
    match rest.takeWhile isPathChar with
    | [] => none
    | name => (steps? (rest.dropWhile isPathChar)).map (.key (.ofList name) :: ·)
  | '[' :: rest =>
    match position? (rest.takeWhile (· ≠ ']')) with
    | none => none
    | some index =>
      if (rest.dropWhile (· ≠ ']')).isEmpty then none
      else (steps? (rest.dropWhile (· ≠ ']')).tail).map (.position index :: ·)
  | _ => none
termination_by cs.length
decreasing_by
  · have := (List.dropWhile_sublist (p := isPathChar) (l := rest)).length_le
    simp only [List.length_cons]
    omega
  · have := (List.dropWhile_sublist (p := (· ≠ ']')) (l := rest)).length_le
    simp only [List.length_cons, List.length_tail]
    omega

/-- The path that a key stands for; a key that is no path stands for itself. -/
def path (key : String) : List Step := (steps? ('.' :: key.toList)).getD [.key key]

/-- A list in which a position has its place, with that place.  Missing items
are added at the end, or before the start if the position counts from the
end. -/
def withRoom (index : Int) (items : List Toml) : List Toml × Nat :=
  let missing (n : Nat) : List Toml := List.replicate n (.table [])
  if 0 ≤ index then
    (items ++ missing (index.toNat + 1 - items.length), index.toNat)
  else
    let back := index.natAbs
    (missing (back - items.length) ++ items, items.length - back)

/-- Lays a value over what a path leads to. -/
def putAt : List Step → Toml → Toml → Toml
  | [], value, _ => value
  | [.key name], value, target => .table (put name value target.entries)
  | .key name :: rest, value, target =>
    let inner := (Keyed.find? (lower name) target.entries).getD (.table [])
    .table (Keyed.insert (lower name) (putAt rest value inner) target.entries)
  | .position index :: rest, value, target =>
    let (items, place) := withRoom index target.items
    .array (items.modify place (putAt rest value))

/-- Lays a source over what there is. -/
def lay (source entries : List (String × Toml)) : List (String × Toml) :=
  (source.foldl (fun target entry => putAt (path entry.1) entry.2 target) (.table entries)).entries

/-! ## Variables -/

/-- What the names of variables for settings begin with, in lower case. -/
def variablePrefix : String := "schema_ir__"

/-- The value that the text of a variable stands for. -/
def ofVariable (text : String) : Toml :=
  let word := text.toLower
  if word = "true" then .boolean true
  else if word = "false" then .boolean false
  else
    match Decimal.readInteger? text with
    | some n =>
      if -0x8000000000000000 ≤ n ∧ n < 0x8000000000000000 then .integer n
      else ((Decimal.read? text).map .float).getD (.string text)
    | none => ((Decimal.read? text).map .float).getD (.string text)

/-- The variables that are settings, as a source. -/
def ofVariables (environment : List (String × String)) : List (String × Toml) :=
  environment.filterMap fun (name, text) =>
    let name := lower name
    if name.startsWith variablePrefix then
      let rest := String.ofList (name.toList.drop variablePrefix.length)
      some (".".intercalate (rest.splitOn "__"), ofVariable text)
    else none

end SchemaSets.Layers
