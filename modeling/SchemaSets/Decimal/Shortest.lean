import SchemaSets.Decimal.Binary

/-!
# Shortest decimals

Of all decimals that round back to a given double, the one with the fewest
digits, and among those the nearest to it.

The reals that round to `m · 2 ^ q` form an interval around it whose ends are
half-way to the two neighbouring doubles; the ends belong to it exactly when
`m` is even.  For one digit, two digits, and so on up to seventeen, the search
below tests the two neighbours of the double on the grid of decimals with that
many digits: if any point of the grid lies in the interval, one of these two
does.  All comparisons are between natural numbers.

An exact tie between the two neighbours is left to the caller, since the two
formats that use these digits settle it differently.
-/

namespace SchemaSets.Decimal

/-- The magnitude `digits · 10 ^ exponent`. -/
structure Scaled where
  digits : Nat
  exponent : Int
deriving DecidableEq, Repr

/-- Which neighbour wins when a double lies half-way between two decimals. -/
inductive Tie
  | upper
  | even
deriving DecidableEq, Repr

/-- The number of decimal digits of `n`; zero has one. -/
def digitCount (n : Nat) : Nat := (Nat.toDigits 10 n).length

/-- A power of ten as a quotient: one of the two numbers is one. -/
def powerOfTen (e : Int) : Nat × Nat := (Nat.pow 10 e.toNat, Nat.pow 10 (-e).toNat)

/-- The exponent `p` with `10 ^ p ≤ n / d < 10 ^ (p + 1)`. -/
def magnitudeOf (n d : Nat) : Int :=
  if d ≤ n then (digitCount (n / d) : Int) - 1
  else -(digitCount ((d - 1) / n) : Int)

/-- The reals that round to one double, as fractions over a common
denominator, and whether the two ends belong to them. -/
structure Interval where
  lower : Nat
  middle : Nat
  upper : Nat
  denominator : Nat
  closed : Bool
deriving Repr

/-- The interval of a double's magnitude.  Below a power of two the spacing
halves, so there the lower end is nearer. -/
def Interval.ofBinary (b : Binary) : Interval :=
  let scale := Nat.pow 2 (b.exponent - 2).toNat
  let below := if b.significand = leadingBit ∧ b.exponent ≠ -1074 then 1 else 2
  { lower := (4 * b.significand - below) * scale
    middle := 4 * b.significand * scale
    upper := (4 * b.significand + 2) * scale
    denominator := Nat.pow 2 (2 - b.exponent).toNat
    closed := b.significand % 2 = 0 }

/-- Whether `digits · 10 ^ e` lies in the interval. -/
def Interval.contains (i : Interval) (digits : Nat) (e : Int) : Bool :=
  let (up, down) := powerOfTen e
  let point := digits * up * i.denominator
  if i.closed then i.lower * down ≤ point && point ≤ i.upper * down
  else i.lower * down < point && point < i.upper * down

/-- The better of the two neighbours on the grid of step `10 ^ e`, if one of
them lies in the interval. -/
def Interval.onGrid? (i : Interval) (tie : Tie) (e : Int) : Option Nat :=
  let (up, down) := powerOfTen e
  let step := up * i.denominator
  let floor := i.middle * down / step
  match i.contains floor e, i.contains (floor + 1) e with
  | true, false => some floor
  | false, true => some (floor + 1)
  | false, false => none
  | true, true =>
    let twice := 2 * (i.middle * down)
    let half := (2 * floor + 1) * step
    if twice < half then some floor
    else if half < twice then some (floor + 1)
    else match tie with
      | .upper => some (floor + 1)
      | .even => some (if floor % 2 = 0 then floor else floor + 1)

/-- A decimal without trailing zeros in its digits. -/
def Scaled.trim : Nat → Scaled → Scaled
  | 0, d => d
  | fuel + 1, d =>
    if d.digits % 10 = 0 ∧ d.digits ≠ 0 then
      Scaled.trim fuel ⟨d.digits / 10, d.exponent + 1⟩
    else d

/-- The first grid with a point in the interval, from `count` digits on. -/
def Interval.search (i : Interval) (tie : Tie) (top : Int) : Nat → Nat → Scaled
  | 0, _ => ⟨i.middle / i.denominator, 0⟩
  | fuel + 1, count =>
    let e := top - count + 1
    match i.onGrid? tie e with
    | some digits => Scaled.trim 20 ⟨digits, e⟩
    | none => i.search tie top fuel (count + 1)

/-- The shortest decimal of a double's magnitude. -/
def shortest (tie : Tie) (b : Binary) : Scaled :=
  if b.significand = 0 then ⟨0, 0⟩
  else
    let i := Interval.ofBinary b
    i.search tie (magnitudeOf i.middle i.denominator) 17 1

end SchemaSets.Decimal
