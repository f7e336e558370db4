import SchemaSets.Value

/-!
# Documents as values

What a document holds can be found again in its value: the members under their
keys, the items in their order, and a text or a truth value as itself.

Numbers take more care, because a validator refuses a double that is no number.
The double nearest to an integer is always a number.  A packed double is none
only if its exponent has all bits set and its fraction is not zero; rounding
never ends there, packing writes no such bits for anything that was a number,
and a change of sign leaves exponent and fraction as they were.  A document can
therefore only offend by a double of its own (`Numeric`), which no JSON text
denotes.
-/

namespace SchemaSets

/-! ## Numbers -/

namespace Json

open Float.Model (Format)
open Float.Model.UnpackedFloat

variable {spec : Format}

/-- What is read from a sign, an exponent and a fraction is a number, unless the
exponent has all bits set and the fraction has one. -/
private theorem isNaN_unpack_packComponents {sign : Sign} {exponent : BitVec spec.exponentBits}
    {fraction : BitVec spec.mantissaBitsWithoutImplicit}
    (h : exponent = -1#_ → fraction = 0#_) :
    (unpack spec (packComponents spec sign exponent fraction)).isNaN = false := by
  delta unpack
  dsimp only
  by_cases hexponent : exponent = -1#_
  · have hfraction : unpackMantissa (packComponents spec sign exponent fraction) = 0#_ := by
      rw [unpackMantissa_packComponents, h hexponent]
    rw [if_pos (unpackExponent_packComponents.trans hexponent), if_pos hfraction]
    rfl
  · rw [if_neg fun heq => hexponent (unpackExponent_packComponents.symm.trans heq)]
    by_cases hsubnormal : unpackExponent (packComponents spec sign exponent fraction) = 0#_
    · rw [if_pos hsubnormal]
      by_cases hzero : unpackMantissa (packComponents spec sign exponent fraction) = 0#_
      · rw [dif_pos hzero]
        rfl
      · rw [dif_neg hzero]
        rfl
    · rw [if_neg hsubnormal]
      rfl

/-- Packing keeps numbers numbers. -/
private theorem isNaN_unpack_pack {x : Float.Model.UnpackedFloat} (h : x.isNaN = false) :
    (unpack spec (pack spec x)).isNaN = false := by
  have hbits : 1 < 2 ^ spec.exponentBits := Nat.one_lt_two_pow (Nat.pos_iff_ne_zero.1 spec.he)
  fun_cases pack spec x with
  | case1 => cases h
  | case2 sign => exact isNaN_unpack_packComponents fun _ => rfl
  | case3 sign => exact isNaN_unpack_packComponents fun _ => rfl
  | case4 sign m e hm biased hlarge => exact isNaN_unpack_packComponents fun _ => rfl
  | case5 sign m e hm bits biased hsmall hnormal =>
      refine isNaN_unpack_packComponents fun hexponent => ?_
      rw [BitVec.neg_one_eq_allOnes, ← BitVec.toNat_inj, BitVec.toNat_ofNat,
        BitVec.toNat_allOnes, Nat.mod_eq_of_lt (by omega)] at hexponent
      omega
  | case6 sign m e hm bits biased hsmall hsubnormal =>
      refine isNaN_unpack_packComponents fun hexponent => ?_
      rw [BitVec.neg_one_eq_allOnes, ← BitVec.toNat_inj, BitVec.toNat_ofNat,
        BitVec.toNat_allOnes, Nat.zero_mod] at hexponent
      omega

/-- Rounding gives a number. -/
private theorem isNaN_roundWithAccuracy (sign : Sign) (mantissa : Nat) (exponent : Int)
    (accuracy : Accuracy) :
    (roundWithAccuracy spec sign mantissa exponent accuracy).isNaN = false := by
  delta roundWithAccuracy
  dsimp only
  -- the mantissa that is left may be zero
  by_cases hzero : (shiftToTargetExponent spec
      (shiftToTargetExponent spec mantissa exponent accuracy).1.roundedMantissa
      (shiftToTargetExponent spec mantissa exponent accuracy).2 .exact).1.mantissa = 0
  · rw [dif_pos hzero]
    rfl
  · rw [dif_neg hzero]
    rfl

/-- Rounding an integer gives a number. -/
private theorem isNaN_normalize (mantissa exponent : Int) (sign : Sign) :
    (Float.Model.UnpackedFloat.normalize spec mantissa exponent sign).isNaN = false := by
  rw [Float.Model.UnpackedFloat.normalize]
  split
  · exact isNaN_roundWithAccuracy ..
  · rfl
  · exact isNaN_roundWithAccuracy ..

/-- A change of sign keeps numbers numbers. -/
private theorem isNaN_neg {x : Float} (h : x.isNaN = false) : (-x).isNaN = false := by
  have hneg : ∀ y : Float.Model.UnpackedFloat, y.isNaN = false → y.neg.isNaN = false := by
    intro y hy
    cases y with
    | notANumber => exact hy
    | _ => rfl
  exact isNaN_unpack_pack (hneg _ h)

/-- The double of an unsigned integer is a number. -/
private theorem isNaN_toFloat (n : UInt64) : n.toFloat.isNaN = false :=
  isNaN_unpack_pack (isNaN_normalize ..)

/-- The double nearest to an integer is a number. -/
theorem isNaN_doubleOfInt (n : Int) : (doubleOfInt n).isNaN = false := by
  rw [doubleOfInt]
  split
  · exact isNaN_toFloat _
  · exact isNaN_neg (isNaN_toFloat _)

mutual
/-- Every double of a document is a number. -/
def Numeric : Json → Prop
  | .number (.double x) => x.isNaN = false
  | .array items => NumericItems items
  | .object members => NumericMembers members
  | _ => True
/-- Every double in a sequence of documents is a number. -/
def NumericItems : List Json → Prop
  | [] => True
  | item :: rest => Numeric item ∧ NumericItems rest
/-- Every double among the members is a number. -/
def NumericMembers : List (String × Json) → Prop
  | [] => True
  | (_, value) :: rest => Numeric value ∧ NumericMembers rest
end

theorem numericItems_iff {items : List Json} :
    NumericItems items ↔ ∀ item ∈ items, item.Numeric := by
  induction items with
  | nil => simp [NumericItems]
  | cons item rest ih => simp [NumericItems, ih]

theorem numericMembers_iff {members : List (String × Json)} :
    NumericMembers members ↔ ∀ member ∈ members, member.2.Numeric := by
  induction members with
  | nil => simp [NumericMembers]
  | cons member rest ih =>
      obtain ⟨key, value⟩ := member
      simp [NumericMembers, ih]

/-- A number of a numeric document is a number as a double. -/
theorem isNaN_toFloat_of_numeric {n : Number} (h : (Json.number n).Numeric) :
    n.toFloat.isNaN = false := by
  cases n with
  | integer n => exact isNaN_doubleOfInt n
  | double x => exact h

end Json

/-! ## Parts -/

namespace Value

/-- The members of the value of an object. -/
theorem find?_ofMembers (key : String) (members : List (String × Json)) :
    Keyed.find? key (ofMembers members) = (Keyed.find? key members).map ofJson := by
  induction members with
  | nil => rfl
  | cons member rest ih =>
      obtain ⟨k, value⟩ := member
      by_cases h : k = key <;> simp [ofMembers, Keyed.find?, h, ih]

theorem mem_ofItems {x : Value} {items : List Json} :
    x ∈ ofItems items ↔ ∃ item ∈ items, ofJson item = x := by
  induction items with
  | nil => simp [ofItems]
  | cons item rest ih => simp [ofItems, ih, eq_comm]

theorem mem_ofMembers {member : String × Value} {members : List (String × Json)} :
    member ∈ ofMembers members ↔ ∃ m ∈ members, (m.1, ofJson m.2) = member := by
  induction members with
  | nil => simp [ofMembers]
  | cons m rest ih => simp [ofMembers, ih, eq_comm]

/-- Only an array has the value of a sequence. -/
theorem ofJson_eq_array_iff {d : Json} {items : List Value} :
    ofJson d = .array items ↔ ∃ elements, d = .array elements ∧ items = ofItems elements := by
  cases d <;> simp [ofJson, eq_comm]

/-- Only an object has the value of an object. -/
theorem ofJson_eq_object_iff {d : Json} {members : List (String × Value)} :
    ofJson d = .object members ↔ ∃ present, d = .object present ∧ members = ofMembers present := by
  cases d <;> simp [ofJson, eq_comm]

/-- Only a truth value has the value of a truth value. -/
theorem ofJson_eq_bool_iff {d : Json} {b : Bool} : ofJson d = .bool b ↔ d = .bool b := by
  cases d <;> simp [ofJson]

/-- Only a text has the value of a text. -/
theorem ofJson_eq_string_iff {d : Json} {text : String} :
    ofJson d = .string text ↔ d = .string text := by
  cases d <;> simp [ofJson]

end Value
end SchemaSets
