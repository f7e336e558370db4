import SchemaSets.Decimal.Reader
import SchemaSets.Keyed
import SchemaSets.Text.Pattern.Basic

/-!
# Reading patterns

Patterns are written as regular expressions.  A character stands for itself
unless it has a meaning: a point, the edges `^` and `$`, bars between branches,
groups, sets between brackets, counts, and escapes.  A brace that does not
begin a count, and a closing bracket or brace, stand for themselves.

A group may change how case, points and edges are treated; the change lasts to
the end of that group, or of the whole pattern if it stands in no such group.
Counts apply to anything but nothing and a look around.  A count may be followed
by `?`, which changes nothing about which texts hold the pattern, and by `+`,
which makes the repetition go as far as it can.
-/

namespace SchemaSets.Text.Pattern

/-- How the characters of a pattern are treated. -/
structure Mode where
  anyCase : Bool := false
  pointTakesAll : Bool := false
  edgesAtLines : Bool := false
deriving DecidableEq, Repr

/-! ## Escapes -/

/-- The value of a hexadecimal digit. -/
def hexValue? (c : Char) : Option Nat :=
  if c.isDigit then some (c.toNat - '0'.toNat)
  else if 'a' ≤ c ∧ c ≤ 'f' then some (c.toNat - 'a'.toNat + 10)
  else if 'A' ≤ c ∧ c ≤ 'F' then some (c.toNat - 'A'.toNat + 10)
  else none

/-- The character with a code in hexadecimal digits. -/
def charOfHex? (digits : List Char) : Option Char := do
  let values ← digits.mapM hexValue?
  let code := values.foldl (fun n d => 16 * n + d) 0
  if digits.isEmpty || !code.isValidChar then none else some (Char.ofNat code)

/-- A character by its code: a fixed number of digits, or any between braces. -/
def readCode (count : Nat) : List Char → Option (Char × List Char)
  | '\x7b' :: rest =>
    match rest.dropWhile (· ≠ '\x7d') with
    | _ :: after => (charOfHex? (rest.takeWhile (· ≠ '\x7d'))).map (·, after)
    | [] => none
  | cs =>
    if cs.length < count then none else (charOfHex? (cs.take count)).map (·, cs.drop count)

/-- The set that an escape stands for, without its backslash. -/
def readSetEscape : List Char → Option (CharSet × List Char)
  | 'd' :: rest => some (.digit, rest)
  | 'D' :: rest => some (.outside .digit, rest)
  | 's' :: rest => some (.blank, rest)
  | 'S' :: rest => some (.outside .blank, rest)
  | 'w' :: rest => some (.word, rest)
  | 'W' :: rest => some (.outside .word, rest)
  | 'h' :: rest => some (.hexDigit, rest)
  | 'H' :: rest => some (.outside .hexDigit, rest)
  | _ => none

/-- The character that an escape stands for, without its backslash. -/
def readCharEscape : List Char → Option (Char × List Char)
  | 'a' :: rest => some ('\x07', rest)
  | 'e' :: rest => some ('\x1b', rest)
  | 'f' :: rest => some ('\x0c', rest)
  | 'n' :: rest => some ('\n', rest)
  | 'r' :: rest => some ('\r', rest)
  | 't' :: rest => some ('\t', rest)
  | 'v' :: rest => some ('\x0b', rest)
  | 'x' :: rest => readCode 2 rest
  | 'u' :: rest => readCode 4 rest
  | 'U' :: rest => readCode 8 rest
  | c :: rest => if ' ' ≤ c ∧ c ≤ '~' ∧ !c.isAlphanum then some (c, rest) else none
  | [] => none

/-- The edge that an escape stands for, without its backslash. -/
def readEdgeEscape : List Char → Option (Edge × List Char)
  | 'A' :: rest => some (.textStart, rest)
  | 'z' :: rest => some (.textEnd, rest)
  | 'b' :: rest => some (.wordEdge, rest)
  | 'B' :: rest => some (.notWordEdge, rest)
  | _ => none

/-- The pattern that an escape stands for, without its backslash. -/
def readEscape (mode : Mode) (cs : List Char) : Option (Pattern × List Char) :=
  match readEdgeEscape cs with
  | some (kind, rest) => some (.edge kind, rest)
  | none =>
    match readSetEscape cs with
    | some (set, rest) => some (.one mode.anyCase set, rest)
    | none => (readCharEscape cs).map fun (c, rest) => (.one mode.anyCase (.single c), rest)

/-! ## Sets -/

/-- A member of a set: a character, or a set of its own. -/
inductive Member
  | char (c : Char)
  | set (s : CharSet)

/-- The set of a member. -/
def Member.toSet : Member → CharSet
  | .char c => .single c
  | .set s => s

/-- The set that a name between colons stands for, after its bracket. -/
def readNamedSet : List Char → Option (CharSet × List Char)
  | ':' :: rest =>
    let (outside, rest) := match rest with
      | '^' :: rest => (true, rest)
      | rest => (false, rest)
    match rest.dropWhile Char.isAlpha with
    | ':' :: ']' :: after =>
      (Keyed.find? (.ofList (rest.takeWhile Char.isAlpha)) CharSet.named).map fun set =>
        (if outside then .outside set else set, after)
    | _ => none
  | _ => none

/-- One member of a set. -/
def readMember : List Char → Option (Member × List Char)
  | '\\' :: rest =>
    match readSetEscape rest with
    | some (set, rest) => some (.set set, rest)
    | none => (readCharEscape rest).map fun (c, rest) => (.char c, rest)
  | c :: rest => some (.char c, rest)
  | [] => none

/-- A member of a set, or all characters between two. -/
def readRange (cs : List Char) : Option (CharSet × List Char) := do
  let (low, rest) ← readMember cs
  match rest with
  | '-' :: ']' :: _ | '-' :: '-' :: _ => some (low.toSet, rest)
  | '-' :: rest => do
    let (high, rest) ← readMember rest
    match low, high with
    | .char low, .char high => if low ≤ high then some (.range low high, rest) else none
    | _, _ => none
  | rest => some (low.toSet, rest)

/-- The operator between two sets. -/
def readOperator : List Char → Option ((CharSet → CharSet → CharSet) × List Char)
  | '&' :: '&' :: rest => some (.both, rest)
  | '-' :: '-' :: rest => some (fun s t => .both s (.outside t), rest)
  | '~' :: '~' :: rest =>
    some (fun s t => .either (.both s (.outside t)) (.both t (.outside s)), rest)
  | _ => none

mutual
/-- A set after its bracket.  At its start, dashes and then a closing bracket
are members. -/
def readSet : Nat → List Char → Option (CharSet × List Char)
  | 0, _ => none
  | fuel + 1, cs => do
    let (outside, cs) := match cs with
      | '^' :: rest => (true, rest)
      | cs => (false, cs)
    let first := (cs.head?.filter (· = '-')).map CharSet.single
    let (first, rest) := match first, cs.dropWhile (· = '-') with
      | none, ']' :: rest => (some (.single ']'), rest)
      | first, rest => (first, rest)
    let (set, rest) ← readUnion fuel first rest
    let (set, rest) ← readOperands fuel set rest
    some (if outside then .outside set else set, rest)
/-- The members of a set up to its end or an operator; `sofar` are those
before. -/
def readUnion : Nat → Option CharSet → List Char → Option (CharSet × List Char)
  | 0, _, _ => none
  | fuel + 1, sofar, cs =>
    if cs.head? = some ']' || (readOperator cs).isSome then some (sofar.getD .nothing, cs)
    else do
      let (set, rest) ← match cs with
        | '[' :: rest => (readNamedSet rest).or (readSet fuel rest)
        | cs => readRange cs
      readUnion fuel (some ((sofar.map fun sofar => .either sofar set).getD set)) rest
/-- The rest of a set after its first members: operators with what they join to
the set, up to its end. -/
def readOperands : Nat → CharSet → List Char → Option (CharSet × List Char)
  | 0, _, _ => none
  | fuel + 1, set, cs =>
    match readOperator cs with
    | some (operator, rest) => do
      let (operand, rest) ← readUnion fuel none rest
      readOperands fuel (operator set operand) rest
    | none =>
      match cs with
      | ']' :: rest => some (set, rest)
      | _ => none
end

/-! ## Counts -/

/-- How often something is repeated: at least, and at most. -/
structure Count where
  least : Nat
  most : Option Nat
deriving DecidableEq, Repr

/-- A count between braces, after the opening one. -/
def readBraces (cs : List Char) : Option (Count × List Char) :=
  let (low, rest) := Decimal.spanDigits cs
  let least := Decimal.digitsValue low
  match rest with
  | '\x7d' :: rest => if low.isEmpty then none else some (⟨least, some least⟩, rest)
  | ',' :: rest =>
    let (high, rest) := Decimal.spanDigits rest
    let most := if high.isEmpty then none else some (Decimal.digitsValue high)
    match rest with
    | '\x7d' :: rest => some (⟨least, most⟩, rest)
    | _ => none
  | _ => none

/-- A count, if there is one. -/
def readCount : List Char → Option (Count × List Char)
  | '?' :: rest => some (⟨0, some 1⟩, rest)
  | '*' :: rest => some (⟨0, none⟩, rest)
  | '+' :: rest => some (⟨1, none⟩, rest)
  | '\x7b' :: rest => readBraces rest
  | _ => none

/-- A pattern with a count. -/
def counted? (inner : Pattern) (count : Count) : Option Pattern :=
  if count.most.any (· < count.least) then none
  else some (.repeated inner count.least count.most)

/-- A repetition, with what may follow its count. -/
def readManner (repetition : Pattern) (cs : List Char) : Pattern × List Char :=
  let rest := match cs with
    | '?' :: rest => rest
    | cs => cs
  match rest with
  | '+' :: rest => (.farthest repetition, rest)
  | rest => (repetition, rest)

/-! ## Groups -/

/-- The mode after the letters of a group, up to a colon or the end of the
group.  Letters after a minus sign take something back. -/
def readMode (setting started : Bool) (mode : Mode) : List Char → Option (Mode × List Char)
  | 'i' :: rest => readMode setting true ⟨setting, mode.pointTakesAll, mode.edgesAtLines⟩ rest
  | 's' :: rest => readMode setting true ⟨mode.anyCase, setting, mode.edgesAtLines⟩ rest
  | 'm' :: rest => readMode setting true ⟨mode.anyCase, mode.pointTakesAll, setting⟩ rest
  | 'U' :: rest => readMode setting true mode rest
  | 'u' :: rest => if setting then readMode setting true mode rest else none
  | '-' :: rest => if setting then readMode false started mode rest else none
  | ':' :: rest => if setting || started then some (mode, ':' :: rest) else none
  | ')' :: rest => if started then some (mode, ')' :: rest) else none
  | _ => none

/-- What follows the name of a group, after its bracket. -/
def skipGroupName (cs : List Char) : Option (List Char) :=
  let isNameChar (c : Char) : Bool := c.isAlphanum || c == '_'
  match cs.dropWhile isNameChar with
  | '>' :: rest => if (cs.takeWhile isNameChar).isEmpty then none else some rest
  | _ => none

/-- What follows a group's end. -/
def closeGroup : List Char → Option (List Char)
  | ')' :: rest => some rest
  | _ => none

/-- Whether a pattern may have a count. -/
def isCountable : Pattern → Bool
  | .empty | .look _ _ _ => false
  | _ => true

/-- A pattern, whether it may have a count, and the mode after it. -/
structure Atom where
  pattern : Pattern
  mode : Mode
  countable : Bool

mutual
/-- Branches with bars between them. -/
def readBranches : Nat → Mode → List Char → Option (Pattern × Mode × List Char)
  | 0, _, _ => none
  | fuel + 1, mode, cs => do
    let (branch, mode, rest) ← readBranch fuel mode cs
    match rest with
    | '|' :: rest => do
      let (others, mode, rest) ← readBranches fuel mode rest
      some (.either branch others, mode, rest)
    | rest => some (branch, mode, rest)
/-- A branch: pieces up to a bar, the end of the group or of the text. -/
def readBranch : Nat → Mode → List Char → Option (Pattern × Mode × List Char)
  | 0, _, _ => none
  | fuel + 1, mode, cs =>
    match cs with
    | [] | '|' :: _ | ')' :: _ => some (.empty, mode, cs)
    | cs => do
      let (atom, rest) ← readAtom fuel mode cs
      let (piece, rest) ← match readCount rest with
        | none => some (atom.pattern, rest)
        | some (count, rest) =>
          if atom.countable then (counted? atom.pattern count).map (readManner · rest) else none
      let (pieces, mode, rest) ← readBranch fuel atom.mode rest
      some (piece.append pieces, mode, rest)
/-- What a count applies to. -/
def readAtom : Nat → Mode → List Char → Option (Atom × List Char)
  | 0, _, _ => none
  | fuel + 1, mode, cs =>
    let plain (pattern : Pattern) (rest : List Char) : Option (Atom × List Char) :=
      some (⟨pattern, mode, isCountable pattern⟩, rest)
    match cs with
    | [] | '*' :: _ | '+' :: _ | '?' :: _ => none
    | '.' :: rest =>
      plain (.one false (if mode.pointTakesAll then .outside .nothing
        else .outside (.single '\n'))) rest
    | '^' :: rest => plain (.edge (if mode.edgesAtLines then .lineStart else .textStart)) rest
    | '$' :: rest => plain (.edge (if mode.edgesAtLines then .lineEnd else .textEnd)) rest
    | '[' :: rest => do
      let (set, rest) ← readSet fuel rest
      plain (.one mode.anyCase set) rest
    | '\\' :: rest => do
      let (pattern, rest) ← readEscape mode rest
      plain pattern rest
    | '(' :: rest => readGroup fuel mode rest
    | c :: rest => plain (.one mode.anyCase (.single c)) rest
/-- A group after its opening. -/
def readGroup : Nat → Mode → List Char → Option (Atom × List Char)
  | 0, _, _ => none
  | fuel + 1, mode, cs =>
    let within (build : Pattern → Option Pattern) (rest : List Char) :
        Option (Atom × List Char) := do
      let (inner, mode, rest) ← readBranches fuel mode rest
      let pattern ← build inner
      some (⟨pattern, mode, !(pattern matches .look _ _ _)⟩, ← closeGroup rest)
    let grouped (rest : List Char) : Option (Atom × List Char) := do
      let (inner, mode, rest) ← readBranches fuel mode rest
      some (⟨inner, mode, true⟩, ← closeGroup rest)
    match cs with
    | '?' :: '=' :: rest => within (fun p => some (.look true true p)) rest
    | '?' :: '!' :: rest => within (fun p => some (.look true false p)) rest
    | '?' :: '<' :: '=' :: rest =>
      within (fun p => if p.width?.isSome then some (.look false true p) else none) rest
    | '?' :: '<' :: '!' :: rest =>
      within (fun p => if p.width?.isSome then some (.look false false p) else none) rest
    | '?' :: '>' :: rest => within (fun p => some (.farthest p)) rest
    | '?' :: '<' :: rest | '?' :: 'P' :: '<' :: rest => do grouped (← skipGroupName rest)
    | '?' :: rest => do
      let (inside, rest) ← readMode true false mode rest
      match rest with
      | ':' :: rest => do
        let (inner, _, rest) ← readBranches fuel inside rest
        some (⟨inner, mode, isCountable inner⟩, ← closeGroup rest)
      | rest => some (⟨.empty, inside, false⟩, ← closeGroup rest)
    | rest => grouped rest
end

/-- The pattern that a text writes, if it writes one. -/
def read? (text : String) : Option Pattern :=
  match readBranches (4 * text.length + 4) {} text.toList with
  | some (pattern, _, []) => some pattern
  | _ => none

end SchemaSets.Text.Pattern
