import SchemaSets.Json.Basic
import SchemaSets.Json.Fault
import SchemaSets.Decimal.Reader

/-!
# Reading JSON text

Every reader takes the text that is left and gives back what it read together
with what is left after it, or stops at a fault.  Containers may nest 127
levels deep.

Numbers are read in two steps.  Digits go into a significand while it fits in
64 bits; whole digits beyond that only raise the exponent, and fraction digits
beyond it are dropped.  A number with neither point nor exponent whose digits
all fit is an integer, except for `-0` and for negative ones below `-2 ^ 63`.
Any other number is a double: the significand rounded to a double, then
multiplied or divided by one power of ten.

The readers of values, items and members call each other, and each call
consumes a character; the first argument bounds the number of calls, and the
length of the text is enough.
-/

namespace SchemaSets.Json

/-- A fault before the text that is left, with `taken` of its bytes read. -/
def halt {α : Type} (fault : Fault) (rest : List Char) (taken : Nat) : Except Stop α :=
  .error ⟨fault, rest, taken⟩

/-- The four blanks of JSON text. -/
def isBlank (c : Char) : Bool := c == ' ' || c == '\n' || c == '\t' || c == '\r'

/-- The text without leading blanks. -/
def skipBlanks (cs : List Char) : List Char := cs.dropWhile isBlank

/-! ## Words -/

/-- Reads the remaining letters of `null`, `true` or `false`. -/
def readWord : List Char → List Char → Except Stop (List Char)
  | [], cs => .ok cs
  | _ :: _, [] => halt .eofValue [] 0
  | w :: word, c :: rest =>
    if w = c then readWord word rest else halt .expectedIdent (c :: rest) 1

/-! ## Strings -/

/-- The value of a hexadecimal digit. -/
def hexValue? (c : Char) : Option Nat :=
  if c.isDigit then some (c.toNat - '0'.toNat)
  else if 'a' ≤ c ∧ c ≤ 'f' then some (c.toNat - 'a'.toNat + 10)
  else if 'A' ≤ c ∧ c ≤ 'F' then some (c.toNat - 'A'.toNat + 10)
  else none

/-- The value of a list of hexadecimal digits. -/
def hexNumber? (cs : List Char) : Option Nat :=
  cs.foldlM (fun n c => (hexValue? c).map (16 * n + ·)) 0

/-- Reads four hexadecimal digits.  The next four bytes are taken whatever
they are. -/
def readHex (cs : List Char) : Except Stop (Nat × List Char) :=
  if byteCount (cs.take 4) < 4 then halt .eofString cs 4
  else match hexNumber? (cs.take 4) with
    | some n => .ok (n, cs.drop 4)
    | none => halt .invalidEscape cs 4

/-- Reads the second half of a surrogate pair and joins the two. -/
def readLowSurrogate (high : Nat) (cs : List Char) : Except Stop (Char × List Char) :=
  match cs with
  | [] => halt .eofString [] 0
  | '\\' :: cs =>
    match cs with
    | [] => halt .eofString [] 0
    | 'u' :: cs => do
      let (low, rest) ← readHex cs
      if 0xdc00 ≤ low ∧ low ≤ 0xdfff then
        .ok (Char.ofNat (0x10000 + (high - 0xd800) * 0x400 + (low - 0xdc00)), rest)
      else halt .loneSurrogate rest 0
    | _ => halt .unfinishedSurrogate cs 1
  | _ => halt .unfinishedSurrogate cs 1

/-- Reads what follows a backslash. -/
def readEscape (cs : List Char) : Except Stop (Char × List Char) :=
  match cs with
  | [] => halt .eofString [] 0
  | '"' :: rest => .ok ('"', rest)
  | '\\' :: rest => .ok ('\\', rest)
  | '/' :: rest => .ok ('/', rest)
  | 'b' :: rest => .ok ('\x08', rest)
  | 'f' :: rest => .ok ('\x0c', rest)
  | 'n' :: rest => .ok ('\n', rest)
  | 'r' :: rest => .ok ('\r', rest)
  | 't' :: rest => .ok ('\t', rest)
  | 'u' :: rest => do
    let (n, rest) ← readHex rest
    if 0xdc00 ≤ n ∧ n ≤ 0xdfff then halt .loneSurrogate rest 0
    else if 0xd800 ≤ n ∧ n ≤ 0xdbff then readLowSurrogate n rest
    else .ok (Char.ofNat n, rest)
  | _ => halt .invalidEscape cs 1

/-- Reads a string whose opening quote was read, up to the closing one. -/
def readStringBody : Nat → List Char → Except Stop (List Char × List Char)
  | 0, cs => halt .eofString cs 0
  | fuel + 1, cs =>
    match cs with
    | [] => halt .eofString [] 0
    | '"' :: rest => .ok ([], rest)
    | '\\' :: rest => do
      let (c, rest) ← readEscape rest
      let (text, rest) ← readStringBody fuel rest
      .ok (c :: text, rest)
    | c :: rest =>
      if c < ' ' then halt .controlCharacter (c :: rest) 1
      else do
        let (text, rest) ← readStringBody fuel rest
        .ok (c :: text, rest)

/-- Reads a string after its opening quote. -/
def readString (cs : List Char) : Except Stop (String × List Char) := do
  let (text, rest) ← readStringBody (cs.length + 1) cs
  .ok (String.ofList text, rest)

/-! ## Numbers -/

/-- Takes digits into a significand while it fits in 64 bits.  Gives the
significand, how many digits went into it, and the digits that did not. -/
def takeDigits (significand count : Nat) : List Char → Nat × Nat × List Char
  | [] => (significand, count, [])
  | c :: rest =>
    let next := 10 * significand + (c.toNat - '0'.toNat)
    if next < 0x10000000000000000 then takeDigits next (count + 1) rest
    else (significand, count, c :: rest)

/-- A power of ten as a double. -/
def tenTo (n : Nat) : Float := Float.ofScientific 1 false n

/-- `significand · 10 ^ exponent` as a double: one rounding of the significand
and one multiplication or division.  Exponents below the table of powers take
two or three divisions.  Nothing when the result is too large. -/
def scale? (significand : Nat) (exponent : Int) : Option Float :=
  let x := significand.toUInt64.toFloat
  if 308 < exponent then
    if significand = 0 then some x else none
  else if 0 ≤ exponent then
    let y := x * tenTo exponent.toNat
    if y.isInf then none else some y
  else if -308 ≤ exponent then some (x / tenTo (-exponent).toNat)
  else if -616 ≤ exponent then some (x / tenTo 308 / tenTo (-(exponent + 308)).toNat)
  else some 0.0

/-- A double with its sign, or the fault of a number that is too large. -/
def readScaled (negative : Bool) (significand : Nat) (exponent : Int) (rest : List Char) :
    Except Stop (Number × List Char) :=
  match scale? significand exponent with
  | some x => .ok (.double (if negative then -x else x), rest)
  | none => halt .numberOutOfRange rest 0

/-- Takes exponent digits while their value fits in 31 bits.  Gives the value
and the digits that did not fit. -/
def takeExponent (value : Nat) : List Char → Nat × List Char
  | [] => (value, [])
  | c :: rest =>
    let next := 10 * value + (c.toNat - '0'.toNat)
    if next < 0x80000000 then takeExponent next rest else (value, c :: rest)

/-- Reads an exponent after its letter and finishes the number. -/
def readExponent (negative : Bool) (significand : Nat) (exponent : Int) (cs : List Char) :
    Except Stop (Number × List Char) :=
  let (minus, cs) := Decimal.splitSign cs
  match cs with
  | [] => halt .eofValue [] 0
  | c :: _ =>
    if !c.isDigit then halt .invalidNumber cs 1
    else
      let (digits, rest) := Decimal.spanDigits cs
      let (value, beyond) := takeExponent 0 digits
      if beyond.isEmpty then
        readScaled negative significand (if minus then exponent - value else exponent + value) rest
      else if significand ≠ 0 ∧ !minus then halt .numberOutOfRange (beyond ++ rest) 1
      else .ok (.double (if negative then -0.0 else 0.0), rest)

/-- Reads what may follow the point or the digits before it: an exponent. -/
def readTail (negative : Bool) (significand : Nat) (exponent : Int) (cs : List Char) :
    Except Stop (Number × List Char) :=
  match cs with
  | 'e' :: rest => readExponent negative significand exponent rest
  | 'E' :: rest => readExponent negative significand exponent rest
  | _ => readScaled negative significand exponent cs

/-- Reads the digits after a point. -/
def readFraction (negative : Bool) (significand : Nat) (exponent : Int) (cs : List Char) :
    Except Stop (Number × List Char) :=
  let (digits, rest) := Decimal.spanDigits cs
  if digits.isEmpty then
    match rest with
    | [] => halt .eofValue [] 0
    | _ => halt .invalidNumber rest 1
  else
    let (significand, count, _) := takeDigits significand 0 digits
    readTail negative significand (exponent - count) rest

/-- An integer, unless only a double can hold it. -/
def integerNumber (negative : Bool) (n : Nat) : Number :=
  if !negative then .integer n
  else if n = 0 ∨ 0x8000000000000000 < n then .double (-(n.toUInt64.toFloat))
  else .integer (-(n : Int))

/-- Reads what follows the whole digits of a number. -/
def readAfterWhole (negative : Bool) (digits rest : List Char) : Except Stop (Number × List Char) :=
  let (significand, _, beyond) := takeDigits 0 0 digits
  match rest with
  | '.' :: rest => readFraction negative significand beyond.length rest
  | _ =>
    if beyond.isEmpty ∧ rest.head? ≠ some 'e' ∧ rest.head? ≠ some 'E' then
      .ok (integerNumber negative significand, rest)
    else readTail negative significand beyond.length rest

/-- Reads a number after its sign.  A leading zero stands alone. -/
def readNumber (negative : Bool) (cs : List Char) : Except Stop (Number × List Char) :=
  match cs with
  | [] => halt .eofValue [] 0
  | '0' :: rest =>
    if (rest.head?.map Char.isDigit).getD false then halt .invalidNumber rest 1
    else readAfterWhole negative ['0'] rest
  | c :: _ =>
    if c.isDigit then
      let (digits, rest) := Decimal.spanDigits cs
      readAfterWhole negative digits rest
    else halt .invalidNumber cs 1

/-! ## Values -/

/-- Reads the colon between a key and its value. -/
def readColon (cs : List Char) : Except Stop (List Char) :=
  match skipBlanks cs with
  | [] => halt .eofObject [] 0
  | ':' :: rest => .ok rest
  | cs => halt .expectedColon cs 1

mutual
/-- Reads a value; `levels` more containers may be opened inside it. -/
def readValue : Nat → Nat → List Char → Except Stop (Json × List Char)
  | 0, _, cs => halt .eofValue cs 0
  | fuel + 1, levels, cs =>
    match skipBlanks cs with
    | [] => halt .eofValue [] 0
    | 'n' :: rest => do .ok (.null, ← readWord ['u', 'l', 'l'] rest)
    | 't' :: rest => do .ok (.bool true, ← readWord ['r', 'u', 'e'] rest)
    | 'f' :: rest => do .ok (.bool false, ← readWord ['a', 'l', 's', 'e'] rest)
    | '-' :: rest => do
      let (n, rest) ← readNumber true rest
      .ok (.number n, rest)
    | '"' :: rest => do
      let (s, rest) ← readString rest
      .ok (.string s, rest)
    | '[' :: rest =>
      match levels with
      | 0 => halt .recursionLimit ('[' :: rest) 1
      | levels + 1 => do
        let (items, rest) ← readItems fuel levels rest
        .ok (.array items, rest)
    | '\x7b' :: rest =>
      match levels with
      | 0 => halt .recursionLimit ('\x7b' :: rest) 1
      | levels + 1 => do
        let (pairs, rest) ← readMembers fuel levels rest
        .ok (ofPairs pairs, rest)
    | c :: rest =>
      if c.isDigit then do
        let (n, rest) ← readNumber false (c :: rest)
        .ok (.number n, rest)
      else halt .expectedValue (c :: rest) 1
/-- Reads the items of an array after its opening bracket. -/
def readItems : Nat → Nat → List Char → Except Stop (List Json × List Char)
  | 0, _, cs => halt .eofList cs 0
  | fuel + 1, levels, cs =>
    match skipBlanks cs with
    | [] => halt .eofList [] 0
    | ']' :: rest => .ok ([], rest)
    | cs => do
      let (item, rest) ← readValue fuel levels cs
      let (items, rest) ← readMoreItems fuel levels rest
      .ok (item :: items, rest)
/-- Reads the items that follow one item. -/
def readMoreItems : Nat → Nat → List Char → Except Stop (List Json × List Char)
  | 0, _, cs => halt .eofList cs 0
  | fuel + 1, levels, cs =>
    match skipBlanks cs with
    | [] => halt .eofList [] 0
    | ']' :: rest => .ok ([], rest)
    | ',' :: rest =>
      match skipBlanks rest with
      | [] => halt .eofValue [] 0
      | ']' :: rest => halt .trailingComma (']' :: rest) 1
      | cs => do
        let (item, rest) ← readValue fuel levels cs
        let (items, rest) ← readMoreItems fuel levels rest
        .ok (item :: items, rest)
    | cs => halt .expectedListEnd cs 1
/-- Reads the members of an object after its opening brace. -/
def readMembers : Nat → Nat → List Char → Except Stop (List (String × Json) × List Char)
  | 0, _, cs => halt .eofObject cs 0
  | fuel + 1, levels, cs =>
    match skipBlanks cs with
    | [] => halt .eofObject [] 0
    | '\x7d' :: rest => .ok ([], rest)
    | '"' :: rest => do
      let (key, rest) ← readString rest
      let (value, rest) ← readValue fuel levels (← readColon rest)
      let (members, rest) ← readMoreMembers fuel levels rest
      .ok ((key, value) :: members, rest)
    | cs => halt .keyNotString cs 1
/-- Reads the members that follow one member. -/
def readMoreMembers : Nat → Nat → List Char → Except Stop (List (String × Json) × List Char)
  | 0, _, cs => halt .eofObject cs 0
  | fuel + 1, levels, cs =>
    match skipBlanks cs with
    | [] => halt .eofObject [] 0
    | '\x7d' :: rest => .ok ([], rest)
    | ',' :: rest =>
      match skipBlanks rest with
      | [] => halt .eofValue [] 0
      | '"' :: rest => do
        let (key, rest) ← readString rest
        let (value, rest) ← readValue fuel levels (← readColon rest)
        let (members, rest) ← readMoreMembers fuel levels rest
        .ok ((key, value) :: members, rest)
      | '\x7d' :: rest => halt .trailingComma ('\x7d' :: rest) 1
      | cs => halt .keyNotString cs 1
    | cs => halt .expectedObjectEnd cs 1
end

/-- How many arrays and objects may lie around a point of a text. -/
def levelLimit : Nat := 127

/-- Reads a whole text. -/
def readText (cs : List Char) : Except Stop Json := do
  let (document, rest) ← readValue (2 * cs.length + 2) levelLimit cs
  match skipBlanks rest with
  | [] => .ok document
  | rest => halt .trailingCharacters rest 1

/-- The document that a text stands for. -/
def parse (text : String) : Except TextError Json :=
  match readText text.toList with
  | .ok document => .ok document
  | .error stop => .error (stop.locate text.toList)

end SchemaSets.Json
