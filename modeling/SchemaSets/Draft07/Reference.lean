import SchemaSets.Json.Pointer
import SchemaSets.Text.Blank

/-!
# References in documents

A `$ref` is a URI reference whose fragment is a JSON pointer into the document.
Two things are asked of its text.  To be well-formed it must hold neither a
backslash nor white space.  To lead anywhere its fragment is read as a URL
fragment is: blanks and controls at the ends fall away, line breaks and tabs
are dropped, and bytes written as a percent sign and two digits are decoded.
-/

namespace SchemaSets.Draft07

/-- Whether a text has the form of a reference. -/
def isReference (text : String) : Bool :=
  text.toList.all fun c => c ≠ '\\' && !Text.isBlank c

/-- Whether a character falls away at the ends of a URL. -/
def isOuterBlank (c : Char) : Bool := c ≤ ' '

/-- Whether a character falls away anywhere in a URL. -/
def isLineBlank (c : Char) : Bool := c == '\t' || c == '\n' || c == '\r'

/-- A URL without the characters that fall away. -/
def trimUrl (cs : List Char) : List Char :=
  ((cs.dropWhile isOuterBlank).reverse.dropWhile isOuterBlank).reverse.filter
    fun c => !isLineBlank c

/-- The value of a hexadecimal digit given as a byte. -/
def hexByte? (b : UInt8) : Option UInt8 :=
  if 48 ≤ b ∧ b ≤ 57 then some (b - 48)
  else if 97 ≤ b ∧ b ≤ 102 then some (b - 87)
  else if 65 ≤ b ∧ b ≤ 70 then some (b - 55)
  else none

/-- Decodes the bytes that are written with a percent sign; a percent sign that
is not followed by two digits stands for itself. -/
def decodePercent : List UInt8 → List UInt8
  | [] => []
  | b :: rest =>
    match b, rest with
    | 37, high :: low :: tail =>
      match hexByte? high, hexByte? low with
      | some h, some l => (16 * h + l) :: decodePercent tail
      | _, _ => b :: decodePercent (high :: low :: tail)
    | _, rest => b :: decodePercent rest
termination_by bytes => bytes.length

/-- The tokens of a reference into its own document. -/
def referenceTokens? (text : String) : Option (List String) :=
  match trimUrl text.toList with
  | '#' :: fragment =>
    let bytes := decodePercent (String.ofList fragment).toUTF8.data.toList
    (String.fromUTF8? ⟨bytes.toArray⟩).bind fun pointer => Json.Pointer.tokens? pointer.toList
  | _ => none

/-- The document that a reference leads to. -/
def resolve? (root : Json) (text : String) : Option Json :=
  (referenceTokens? text).bind fun tokens => Json.Pointer.follow? tokens root

end SchemaSets.Draft07
