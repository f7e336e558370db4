import SchemaSets.Decimal.Reader
import SchemaSets.Toml.Basic

/-!
# Lexemes of TOML

The parts of a TOML text that hold no other values: gaps, keys, strings,
numbers and moments.  Every reader gives back what it did not take, and nothing
if the text does not begin as it should.

Blanks are spaces and tabs.  A line ends with a line feed, which a carriage
return may precede.  Comments and strings hold no control characters but tabs.
-/

namespace SchemaSets.Toml

/-- A reader of something at the start of a text. -/
abbrev Lexer (α : Type) := List Char → Option (α × List Char)

/-! ## Gaps -/

/-- Whether a character is a blank. -/
def isBlank (c : Char) : Bool := c == ' ' || c == '\t'

/-- Whether a character may stand in comments and literal strings. -/
def isPlain (c : Char) : Bool := c == '\t' || (' ' ≤ c && c ≠ '\x7f')

/-- Leaves blanks out. -/
def skipBlanks (cs : List Char) : List Char := cs.dropWhile isBlank

/-- Leaves out blanks, line ends and comments. -/
def skipGaps (inComment : Bool) : List Char → Option (List Char)
  | [] => some []
  | '\r' :: '\n' :: rest => skipGaps false rest
  | '\n' :: rest => skipGaps false rest
  | c :: rest =>
    if inComment then if isPlain c then skipGaps true rest else none
    else if isBlank c then skipGaps false rest
    else if c = '#' then skipGaps true rest
    else some (c :: rest)

/-- Goes to the next line, if nothing but a comment is left of this one. -/
def endLine (inComment : Bool) : List Char → Option (List Char)
  | [] => some []
  | '\r' :: '\n' :: rest => some rest
  | '\n' :: rest => some rest
  | c :: rest =>
    if inComment then if isPlain c then endLine true rest else none
    else if isBlank c then endLine false rest
    else if c = '#' then endLine true rest
    else none

/-- Leaves out a line end at the start, if there is one. -/
def skipLineEnd : List Char → List Char
  | '\r' :: '\n' :: rest => rest
  | '\n' :: rest => rest
  | cs => cs

/-- What follows a word at the start. -/
def expect : List Char → List Char → Option (List Char)
  | [], cs => some cs
  | w :: word, c :: cs => if w = c then expect word cs else none
  | _ :: _, [] => none

/-! ## Strings -/

/-- The value of a hexadecimal digit. -/
def hexDigit? (c : Char) : Option Nat :=
  if c.isDigit then some (c.toNat - '0'.toNat)
  else if 'a' ≤ c ∧ c ≤ 'f' then some (c.toNat - 'a'.toNat + 10)
  else if 'A' ≤ c ∧ c ≤ 'F' then some (c.toNat - 'A'.toNat + 10)
  else none

/-- The character with a code of a fixed number of hexadecimal digits. -/
def readCode (count : Nat) (cs : List Char) : Option (Char × List Char) := do
  let digits ← (cs.take count).mapM hexDigit?
  if digits.length < count then none
  else
    let code := digits.foldl (fun n d => 16 * n + d) 0
    if code.isValidChar then some (Char.ofNat code, cs.drop count)
    else none

/-- The character that an escape stands for, without its backslash. -/
def readEscape : Lexer Char
  | 'b' :: rest => some ('\x08', rest)
  | 't' :: rest => some ('\t', rest)
  | 'n' :: rest => some ('\n', rest)
  | 'f' :: rest => some ('\x0c', rest)
  | 'r' :: rest => some ('\r', rest)
  | '"' :: rest => some ('"', rest)
  | '\\' :: rest => some ('\\', rest)
  | 'u' :: rest => readCode 4 rest
  | 'U' :: rest => readCode 8 rest
  | _ => none

/-- The rest of a basic string after its opening quote. -/
def readBasic : Nat → Lexer (List Char)
  | 0, _ => none
  | _ + 1, [] => none
  | fuel + 1, c :: rest =>
    if c = '"' then some ([], rest)
    else if c = '\\' then do
      let (escaped, rest) ← readEscape rest
      let (more, rest) ← readBasic fuel rest
      some (escaped :: more, rest)
    else if isPlain c then do
      let (more, rest) ← readBasic fuel rest
      some (c :: more, rest)
    else none

/-- The rest of a literal string after its opening quote. -/
def readLiteral : Lexer (List Char)
  | [] => none
  | c :: rest =>
    if c = '\'' then some ([], rest)
    else if isPlain c then (readLiteral rest).map fun (more, rest) => (c :: more, rest)
    else none

/-- How many quotes stand at the start, and what follows them. -/
def takeQuotes (quote : Char) (cs : List Char) : Nat × List Char :=
  ((cs.takeWhile (· = quote)).length, cs.dropWhile (· = quote))

/-- The end of a string of several lines: three quotes, and up to two before
them that belong to the text. -/
def closing? (quote : Char) (cs : List Char) : Option (Lexer (List Char)) :=
  let (count, rest) := takeQuotes quote cs
  if count < 3 then none
  else some fun _ => if count ≤ 5 then some (List.replicate (count - 3) quote, rest) else none

/-- Leaves out blanks and line ends. -/
def skipLines : List Char → List Char
  | [] => []
  | '\r' :: '\n' :: rest => skipLines rest
  | c :: rest => if isBlank c || c == '\n' then skipLines rest else c :: rest

/-- What follows a line end that an escape takes out, with all gaps after it. -/
def skipEscapedLine? (cs : List Char) : Option (List Char) :=
  match skipBlanks cs with
  | '\n' :: rest | '\r' :: '\n' :: rest => some (skipLines rest)
  | _ => none

/-- The rest of a basic string of several lines. -/
def readBasicLines : Nat → Lexer (List Char)
  | 0, _ => none
  | _ + 1, [] => none
  | fuel + 1, c :: rest =>
    match closing? '"' (c :: rest) with
    | some close => close (c :: rest)
    | none =>
      if c = '\\' then
        match skipEscapedLine? rest with
        | some rest => readBasicLines fuel rest
        | none => do
          let (escaped, rest) ← readEscape rest
          let (more, rest) ← readBasicLines fuel rest
          some (escaped :: more, rest)
      else
        match c, rest with
        | '\r', '\n' :: rest | '\n', rest => do
          let (more, rest) ← readBasicLines fuel rest
          some ('\n' :: more, rest)
        | c, rest =>
          if isPlain c then do
            let (more, rest) ← readBasicLines fuel rest
            some (c :: more, rest)
          else none

/-- The rest of a literal string of several lines. -/
def readLiteralLines : Nat → Lexer (List Char)
  | 0, _ => none
  | _ + 1, [] => none
  | fuel + 1, c :: rest =>
    match closing? '\'' (c :: rest) with
    | some close => close (c :: rest)
    | none =>
      match c, rest with
      | '\r', '\n' :: rest | '\n', rest => do
        let (more, rest) ← readLiteralLines fuel rest
        some ('\n' :: more, rest)
      | c, rest =>
        if isPlain c then do
          let (more, rest) ← readLiteralLines fuel rest
          some (c :: more, rest)
        else none

/-- A string of one line, or nothing if the text does not begin with a quote. -/
def readLineString : Lexer String
  | '"' :: rest => (readBasic (rest.length + 1) rest).map fun (cs, rest) => (.ofList cs, rest)
  | '\'' :: rest => (readLiteral rest).map fun (cs, rest) => (.ofList cs, rest)
  | _ => none

/-- A string of any form. -/
def readString : Lexer String
  | '"' :: '"' :: '"' :: rest =>
    let rest := skipLineEnd rest
    (readBasicLines (rest.length + 1) rest).map fun (cs, rest) => (.ofList cs, rest)
  | '\'' :: '\'' :: '\'' :: rest =>
    let rest := skipLineEnd rest
    (readLiteralLines (rest.length + 1) rest).map fun (cs, rest) => (.ofList cs, rest)
  | cs => readLineString cs

/-! ## Keys -/

/-- Whether a character may stand in a key without quotes. -/
def isBare (c : Char) : Bool := c.isAlphanum || c == '_' || c == '-'

/-- One key. -/
def readSimpleKey (cs : List Char) : Option (String × List Char) :=
  match readLineString cs with
  | some found => some found
  | none =>
    match cs.span isBare with
    | ([], _) => none
    | (key, rest) => some (.ofList key, rest)

/-- Up to a number of keys with points between them, and the blanks around
them. -/
def readKeys : Nat → Lexer (List String)
  | 0, _ => none
  | room + 1, cs => do
    let (key, rest) ← readSimpleKey (skipBlanks cs)
    match skipBlanks rest with
    | '.' :: rest => do
      let (keys, rest) ← readKeys room rest
      some (key :: keys, rest)
    | rest => some ([key], rest)

/-- How many keys may be joined by points. -/
def keyLimit : Nat := 79

/-- Keys with points between them. -/
def readKey (cs : List Char) : Option (List String × List Char) := readKeys keyLimit cs

/-! ## Numbers -/

/-- Digits after the first one; an underscore may stand between two digits. -/
def moreDigits (p : Char → Bool) : List Char → List Char × List Char
  | [] => ([], [])
  | c :: rest =>
    if p c then
      let (digits, rest) := moreDigits p rest
      (c :: digits, rest)
    else
      match c, rest with
      | '_', d :: rest =>
        if p d then
          let (digits, rest) := moreDigits p rest
          (d :: digits, rest)
        else ([], '_' :: d :: rest)
      | c, rest => ([], c :: rest)

/-- One or more digits. -/
def readDigits (p : Char → Bool) : Lexer (List Char)
  | c :: rest =>
    if p c then
      let (digits, rest) := moreDigits p rest
      some (c :: digits, rest)
    else none
  | [] => none

/-- A sign, or none. -/
def readSign : List Char → List Char × List Char
  | '-' :: rest => (['-'], rest)
  | '+' :: rest => (['+'], rest)
  | cs => ([], cs)

/-- A decimal integer without superfluous zeros. -/
def readDecimal (cs : List Char) : Option (List Char × List Char) := do
  let (sign, rest) := readSign cs
  match rest with
  | '0' :: rest => some (sign ++ ['0'], rest)
  | rest => do
    let (digits, rest) ← readDigits Char.isDigit rest
    some (sign ++ digits, rest)

/-- An integer that fits into 64 bits with a sign. -/
def integer? (n : Int) : Option Toml :=
  if -0x8000000000000000 ≤ n ∧ n < 0x8000000000000000 then some (.integer n) else none

/-- An integer written to a base that is a power of two. -/
def readBased (base : Nat) (cs : List Char) : Option (Toml × List Char) := do
  let isDigit (c : Char) : Bool := (hexDigit? c).any (· < base)
  let (digits, rest) ← readDigits isDigit cs
  let n := digits.foldl (fun n c => base * n + (hexDigit? c).getD 0) 0
  some (← integer? n, rest)

/-- An integer. -/
def readInteger : Lexer Toml
  | '0' :: 'x' :: rest => readBased 16 rest
  | '0' :: 'o' :: rest => readBased 8 rest
  | '0' :: 'b' :: rest => readBased 2 rest
  | cs => do
    let (word, rest) ← readDecimal cs
    let n ← Decimal.readInteger? (.ofList word)
    some (← integer? n, rest)

/-- The exponent of a float. -/
def readExponent : Lexer (List Char)
  | c :: rest =>
    if c = 'e' ∨ c = 'E' then do
      let (sign, rest) := readSign rest
      let (digits, rest) ← readDigits Char.isDigit rest
      some ('e' :: sign ++ digits, rest)
    else none
  | [] => none

/-- The fraction of a float, with an exponent if there is one. -/
def readFraction : Lexer (List Char)
  | '.' :: rest => do
    let (digits, rest) ← readDigits Char.isDigit rest
    match readExponent rest with
    | some (exponent, rest) => some ('.' :: digits ++ exponent, rest)
    | none => some ('.' :: digits, rest)
  | _ => none

/-- A float with a fraction or an exponent.  One that is too large is none. -/
def readDecimalFloat (cs : List Char) : Option (Toml × List Char) := do
  let (whole, rest) ← readDecimal cs
  let (tail, rest) ← (readExponent rest).or (readFraction rest)
  let x ← Decimal.read? (.ofList (whole ++ tail))
  if x == 1.0 / 0.0 then none else some (.float x, rest)

/-- Infinity, or what is not a number. -/
def readSpecialFloat (cs : List Char) : Option (Toml × List Char) := do
  let (sign, rest) := readSign cs
  let signed (x : Float) : Float := if sign = ['-'] then -x else x
  match expect "inf".toList rest with
  | some rest => some (.float (signed (1.0 / 0.0)), rest)
  | none => (expect "nan".toList rest).map fun rest => (.float (signed (0.0 / 0.0)), rest)

/-! ## Moments -/

/-- A number of a fixed count of digits, not above a bound. -/
def readField (count low high : Nat) (cs : List Char) : Option (List Char × List Char) :=
  let digits := cs.take count
  if digits.length = count && digits.all Char.isDigit then
    let n := Decimal.digitsValue digits
    if low ≤ n ∧ n ≤ high then some (digits, cs.drop count) else none
  else none

/-- How many days a month has. -/
def daysOf (year month : Nat) : Nat :=
  if month = 2 then
    if year % 4 = 0 ∧ (year % 100 ≠ 0 ∨ year % 400 = 0) then 29 else 28
  else if month = 4 ∨ month = 6 ∨ month = 9 ∨ month = 11 then 30 else 31

/-- A date. -/
def readDate (cs : List Char) : Option (List Char × List Char) := do
  let (year, rest) ← readField 4 0 9999 cs
  let (month, rest) ← readField 2 1 12 (← expect ['-'] rest)
  let days := daysOf (Decimal.digitsValue year) (Decimal.digitsValue month)
  let (day, rest) ← readField 2 1 days (← expect ['-'] rest)
  some (year ++ '-' :: month ++ '-' :: day, rest)

/-- A time of day.  Of a fraction of a second nine digits count, and zeros at
their end do not show. -/
def readTime (cs : List Char) : Option (List Char × List Char) := do
  let (hour, rest) ← readField 2 0 23 cs
  let (minute, rest) ← readField 2 0 59 (← expect [':'] rest)
  let (second, rest) ← readField 2 0 60 (← expect [':'] rest)
  let time := hour ++ ':' :: minute ++ ':' :: second
  match rest with
  | '.' :: fraction => do
    let (digits, rest) := Decimal.spanDigits fraction
    if digits.isEmpty then none
    else
      let shown := ((digits.take 9).reverse.dropWhile (· = '0')).reverse
      some (if shown.isEmpty then time else time ++ '.' :: shown, rest)
  | rest => some (time, rest)

/-- A distance from universal time.  None at all is written with a plus
sign. -/
def readOffset : Lexer (List Char)
  | c :: rest =>
    if c = 'Z' ∨ c = 'z' then some (['Z'], rest)
    else if c = '+' ∨ c = '-' then do
      let (hour, rest) ← readField 2 0 23 rest
      let (minute, rest) ← readField 2 0 59 (← expect [':'] rest)
      let sign := if (hour ++ minute).all (· = '0') then '+' else c
      some (sign :: hour ++ ':' :: minute, rest)
    else none
  | [] => none

/-- A time with its distance from universal time, if that is given. -/
def readClock (cs : List Char) : Option (List Char × List Char) := do
  let (time, rest) ← readTime cs
  match readOffset rest with
  | some (offset, rest) => some (time ++ offset, rest)
  | none => some (time, rest)

/-- A date, a time, or both. -/
def readMoment (cs : List Char) : Option (Toml × List Char) :=
  let found : Option (List Char × List Char) :=
    match readDate cs with
    | none => readTime cs
    | some (date, rest) =>
      match rest with
      | c :: after =>
        if c = 'T' ∨ c = 't' ∨ c = ' ' then
          match readClock after with
          | some (clock, rest) => some (date ++ 'T' :: clock, rest)
          | none => some (date, rest)
        else some (date, rest)
      | [] => some (date, [])
  found.map fun (cs, rest) => (.moment (.ofList cs), rest)

/-- A number or a moment. -/
def readNumber (cs : List Char) : Option (Toml × List Char) :=
  (readMoment cs).or <| (readSpecialFloat cs).or <| (readDecimalFloat cs).or (readInteger cs)

/-- A boolean. -/
def readBoolean (cs : List Char) : Option (Toml × List Char) :=
  match expect "true".toList cs with
  | some rest => some (.boolean true, rest)
  | none => (expect "false".toList cs).map fun rest => (.boolean false, rest)

end SchemaSets.Toml
