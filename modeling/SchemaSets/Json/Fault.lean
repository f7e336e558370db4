/-!
# Faults of a JSON text

What can be wrong with a JSON text, and where.  A place is a line, counted
from one, and a column, which counts the bytes of that line up to and
including the byte at which reading stopped; a line break that was read starts
the next line at column zero.
-/

namespace SchemaSets.Json

/-- What is wrong with a JSON text. -/
inductive Fault
  | eofValue
  | eofObject
  | eofList
  | eofString
  | expectedValue
  | expectedColon
  | expectedObjectEnd
  | expectedListEnd
  | expectedIdent
  | keyNotString
  | trailingComma
  | trailingCharacters
  | invalidNumber
  | numberOutOfRange
  | invalidEscape
  | unfinishedSurrogate
  | loneSurrogate
  | controlCharacter
  | recursionLimit
deriving DecidableEq, Repr

/-- The words for a fault. -/
def Fault.text : Fault → String
  | .eofValue => "EOF while parsing a value"
  | .eofObject => "EOF while parsing an object"
  | .eofList => "EOF while parsing a list"
  | .eofString => "EOF while parsing a string"
  | .expectedValue => "expected value"
  | .expectedColon => "expected `:`"
  | .expectedObjectEnd => "expected `,` or `\x7d`"
  | .expectedListEnd => "expected `,` or `]`"
  | .expectedIdent => "expected ident"
  | .keyNotString => "key must be a string"
  | .trailingComma => "trailing comma"
  | .trailingCharacters => "trailing characters"
  | .invalidNumber => "invalid number"
  | .numberOutOfRange => "number out of range"
  | .invalidEscape => "invalid escape"
  | .unfinishedSurrogate => "unexpected end of hex escape"
  | .loneSurrogate => "lone leading surrogate in hex escape"
  | .controlCharacter => "control character (\\u0000-\\u001F) found while parsing a string"
  | .recursionLimit => "recursion limit exceeded"

/-- A fault and its place. -/
structure TextError where
  fault : Fault
  line : Nat
  column : Nat
deriving DecidableEq, Repr

/-- The words for a fault at its place. -/
def TextError.message (e : TextError) : String :=
  e.fault.text ++ " at line " ++ toString e.line ++ " column " ++ toString e.column

/-- The number of bytes of a text. -/
def byteCount (cs : List Char) : Nat := cs.foldl (fun n c => n + c.utf8Size) 0

/-- The line and column after the first `bytes` bytes of a text. -/
def place (line column : Nat) : Nat → List Char → Nat × Nat
  | 0, _ => (line, column)
  | _, [] => (line, column)
  | bytes + 1, c :: rest =>
    if c = '\n' then place (line + 1) 0 bytes rest
    else place line (column + min c.utf8Size (bytes + 1)) (bytes + 1 - c.utf8Size) rest
termination_by _ cs => cs.length

/-- Where reading stopped: what is wrong, what was left to read, and how many
bytes of that count as read. -/
structure Stop where
  fault : Fault
  rest : List Char
  taken : Nat
deriving Repr

/-- A stop as a place in the whole text. -/
def Stop.locate (text : List Char) (stop : Stop) : TextError :=
  let left := byteCount stop.rest
  let (line, column) := place 1 0 (byteCount text - left + min stop.taken left) text
  ⟨stop.fault, line, column⟩

end SchemaSets.Json
