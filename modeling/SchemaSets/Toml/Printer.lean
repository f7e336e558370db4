import SchemaSets.Toml.Basic

/-!
# Writing TOML strings

A string has four written forms: between double quotes with escapes, or between
single quotes as it is, and either on one line or on several.  The form is the
first that shows the string without an escape, in this order: double quotes on
one line, single quotes on one line, double quotes on several lines, single
quotes on several lines.  If every form needs an escape or cannot hold the
string, it is written between double quotes, on several lines if it has a line
feed.

A tab is no reason to leave a form, though between double quotes it is written
as an escape.  A form on several lines holds up to two of its quotes in a row.  After its
opening quotes a line feed is passed over, so one is added before a string that
has line feeds of its own.
-/

namespace SchemaSets.Toml

/-- The digits of a code in hexadecimal, at least four. -/
def hexCode (n : Nat) : String :=
  let digits := (Nat.toDigits 16 n).map Char.toUpper
  .ofList (List.replicate (4 - digits.length) '0' ++ digits)

/-- Whether a character is a control character. -/
def isControl (c : Char) : Bool := c < ' ' || c == '\x7f'

/-- Whether a character cannot stand for itself in any form. -/
def needsCode (c : Char) : Bool := isControl c && c ≠ '\t' && c ≠ '\n'

/-- The most times in a row that a character stands in a text, if it stood
`current` times before it. -/
def longestRun (quote : Char) (current : Nat) : List Char → Nat
  | [] => current
  | c :: rest =>
    if c = quote then longestRun quote (current + 1) rest
    else max current (longestRun quote 0 rest)

/-- A written form of a string. -/
structure StringForm where
  isLiteral : Bool
  onLines : Bool
deriving DecidableEq, Repr

/-- The quote of a form. -/
def StringForm.quote (form : StringForm) : Char := if form.isLiteral then '\'' else '"'

/-- The forms, from the one that is liked best. -/
def StringForm.all : List StringForm := [⟨false, false⟩, ⟨true, false⟩, ⟨false, true⟩, ⟨true, true⟩]

/-- Whether a form shows a string as it is. -/
def StringForm.shows (form : StringForm) (cs : List Char) : Bool :=
  !cs.any needsCode && (form.isLiteral || !cs.contains '\\') &&
    (if form.onLines then longestRun form.quote 0 cs < 3
      else !cs.contains form.quote && !cs.contains '\n')

/-- The form that a string is written in. -/
def StringForm.of (cs : List Char) : StringForm :=
  (all.find? (·.shows cs)).getD ⟨false, cs.contains '\n'⟩

/-- The text between double quotes that stands for a string.  On several lines
line feeds stay as they are, and of double quotes only the third in a row is
escaped; `run` counts those that came before. -/
def escape (onLines : Bool) (run : Nat) : List Char → String
  | [] => ""
  | c :: rest =>
    if c = '"' ∧ onLines ∧ run < 2 then "\"" ++ escape onLines (run + 1) rest
    else
      let written :=
        if c = '\x08' then "\\b"
        else if c = '\t' then "\\t"
        else if c = '\n' then (if onLines then "\n" else "\\n")
        else if c = '\x0c' then "\\f"
        else if c = '\r' then "\\r"
        else if c = '"' then "\\\""
        else if c = '\\' then "\\\\"
        else if isControl c then "\\u" ++ hexCode c.toNat
        else c.toString
      written ++ escape onLines 0 rest

/-- A string in its written form. -/
def quote (text : String) : String :=
  let cs := text.toList
  let form := StringForm.of cs
  let quotes := String.ofList (List.replicate (if form.onLines then 3 else 1) form.quote)
  let start := if form.onLines && cs.contains '\n' then "\n" else ""
  let body := if form.isLiteral then text else escape form.onLines 0 cs
  quotes ++ start ++ body ++ quotes

end SchemaSets.Toml
