import SchemaSets.Decimal.Shortest

/-!
# Two ways to write a double

*Positional* text never has an exponent and has a point only before a
fraction: it is how a number is named in an issue.  *JSON* text always shows
that a number is not an integer, with a point or an exponent, and keeps to
positions while the point falls within sixteen digits of the front or five
zeros before them.  An exponent always has its sign.
-/

namespace SchemaSets.Decimal

/-- A run of zeros. -/
def zeros (n : Nat) : String := String.ofList (List.replicate n '0')

/-- A decimal written in positions; an integer has no point. -/
def Scaled.positional (d : Scaled) : String :=
  let digits := Nat.toDigits 10 d.digits
  if 0 ≤ d.exponent then String.ofList digits ++ zeros d.exponent.toNat
  else
    let point : Int := digits.length + d.exponent
    if 0 < point then
      String.ofList (digits.take point.toNat) ++ "." ++ String.ofList (digits.drop point.toNat)
    else "0." ++ zeros (-point).toNat ++ String.ofList digits

/-- A sign before a text. -/
def signed (negative : Bool) (text : String) : String :=
  if negative then "-" ++ text else text

/-- A double in positions: `1`, `-0`, `0.25`, `NaN`, `-inf`. -/
def positional (x : Float) : String :=
  match Parts.ofFloat x with
  | .notANumber => "NaN"
  | .infinite negative => signed negative "inf"
  | .finite negative magnitude => signed negative (shortest .upper magnitude).positional

/-- An exponent with its sign. -/
def exponentText (e : Int) : String :=
  if 0 ≤ e then "+" ++ toString e else toString e

/-- A decimal in the form JSON documents use: `1.0`, `0.001`, `1e+30`,
`1.5e-7`. -/
def Scaled.json (d : Scaled) : String :=
  let digits := Nat.toDigits 10 d.digits
  let point : Int := digits.length + d.exponent
  if 0 ≤ d.exponent ∧ point ≤ 16 then d.positional ++ ".0"
  else if -5 < point ∧ point ≤ 16 then d.positional
  else
    let fraction := if digits.length = 1 then "" else "." ++ String.ofList (digits.drop 1)
    String.ofList (digits.take 1) ++ fraction ++ "e" ++ exponentText (point - 1)

/-- A double as JSON text.  The doubles of a document are finite. -/
def json (x : Float) : String :=
  match Parts.ofFloat x with
  | .finite negative magnitude => signed negative (shortest .even magnitude).json
  | _ => "null"

end SchemaSets.Decimal
