/-!
# Doubles as binary fractions

A finite double is a sign, a significand `m` and an exponent `q`, and stands
for `m · 2 ^ q`.  Reading the three off the bit pattern turns every question
about its decimal digits into one about natural numbers.
-/

namespace SchemaSets.Decimal

/-- The magnitude `significand · 2 ^ exponent` of a finite double. -/
structure Binary where
  significand : Nat
  exponent : Int
deriving DecidableEq, Repr

/-- What a double stands for. -/
inductive Parts
  | notANumber
  | infinite (negative : Bool)
  | finite (negative : Bool) (magnitude : Binary)
deriving DecidableEq, Repr

/-- The least significand of full precision: the bit that a bit pattern leaves
out, above its 52 bits of fraction. -/
def leadingBit : Nat := 0x10000000000000

/-- The parts of the double with the given bit pattern. -/
def Parts.ofBits (bits : UInt64) : Parts :=
  let word := bits.toNat
  let negative := decide (0x8000000000000000 ≤ word)
  let biased : Nat := word / leadingBit % 2048
  let fraction : Nat := word % leadingBit
  if biased = 2047 then
    if fraction = 0 then .infinite negative else .notANumber
  else if biased = 0 then
    .finite negative ⟨fraction, -1074⟩
  else
    .finite negative ⟨leadingBit + fraction, (biased : Int) - 1075⟩

/-- The parts of a double. -/
def Parts.ofFloat (x : Float) : Parts := Parts.ofBits x.toBits

end SchemaSets.Decimal
