import Rhythm.Duration
import Mathlib

/-
This file reads the fields of binary64 words as numbers. The main statements say what a number
unpacks to and that numbers which unpack alike are the same.
-/

namespace Rhythm.Binary

open Float.Model Float.Model.UnpackedFloat

/-- The mantissa of a word is its fraction. -/
theorem unpackMantissa_toNat (word : BitVec Format.binary64.numBits) :
    (unpackMantissa word).toNat = word.toNat % leadingBit := by
  simp [unpackMantissa, BitVec.extractLsb, leadingBit]

/-- The exponent of a word is its field without the sign. -/
theorem unpackExponent_toNat (word : BitVec Format.binary64.numBits) :
    (unpackExponent word).toNat = word.toNat / leadingBit % fieldCount := by
  simp [unpackExponent, BitVec.extractLsb, leadingBit, fieldCount, Nat.shiftRight_eq_div_pow]

theorem unpackSign_toNat (word : BitVec Format.binary64.numBits) :
    (unpackSign word).toNat = word.toNat / leadingBit / fieldCount := by
  have bound : word.toNat < 2 ^ 64 := word.isLt
  simp [unpackSign, BitVec.extractLsb, leadingBit, fieldCount, Nat.shiftRight_eq_div_pow]
  omega

theorem append_leadingBit (bits : BitVec 52) :
    (1#1 ++ bits).toNat = leadingBit + bits.toNat := by
  rw [BitVec.toNat_append, ← Nat.shiftLeft_add_eq_or_of_lt bits.isLt]
  rfl

/-- The sign of a number is told by its sign bit. -/
def sign (number : Float) : Sign :=
  if field number < fieldCount then .positive else .negative

theorem ofBitVec_unpackSign (number : Float) :
    Sign.ofBitVec (@unpackSign Format.binary64 number.toBits.toBitVec) =
      sign number := by
  have bound : number.toBits.toBitVec.toNat < 2 ^ 64 := number.toBits.toBitVec.isLt
  have bit := unpackSign_toNat number.toBits.toBitVec
  unfold Sign.ofBitVec sign field
  rw [show number.toBits.toNat = number.toBits.toBitVec.toNat from rfl]
  congr 1
  rw [← BitVec.toNat_inj, bit, eq_iff_iff]
  simp only [leadingBit, fieldCount, BitVec.toNat_ofNat]
  omega

/-- Words with an empty exponent field have no leading bit. -/
theorem ofFloat_of_subnormal {number : Float} (subnormal : field number % fieldCount = 0) :
    ofFloat number = ⟨fraction number, -1074⟩ :=
  if_pos subnormal

/-- Words with other exponent fields have a leading bit. -/
theorem ofFloat_of_normal {number : Float} (normal : field number % fieldCount ≠ 0) :
    ofFloat number =
      ⟨leadingBit + fraction number, ((field number % fieldCount : Nat) : Int) - 1075⟩ :=
  if_neg normal

theorem significand_eq_zero_iff {number : Float} :
    (ofFloat number).significand = 0 ↔ field number % fieldCount = 0 ∧ fraction number = 0 := by
  by_cases subnormal : field number % fieldCount = 0
  · simp [ofFloat_of_subnormal, subnormal]
  · simp [ofFloat_of_normal, subnormal, leadingBit]

/-- The fields of a word say what it unpacks to. -/
theorem unpack_eq (number : Float) :
    number.toModel.unpack =
      if field number % fieldCount = fieldCount - 1 then
        if fraction number = 0 then .infinity (sign number) else .notANumber
      else if positive : 0 < (ofFloat number).significand then
        .finite (sign number) (ofFloat number).significand (ofFloat number).exponent positive
      else .zero (sign number) := by
  have mantissa := unpackMantissa_toNat number.toBits.toBitVec
  have exponent := unpackExponent_toNat number.toBits.toBitVec
  change _ = fraction number at mantissa
  change _ = field number % fieldCount at exponent
  have signed := ofBitVec_unpackSign number
  have bias : ((Format.exponentBias Format.binary64 : Nat) : Int) = 1023 := by decide
  have special : @unpackExponent Format.binary64 number.toBits.toBitVec = -1#_ ↔
      field number % fieldCount = fieldCount - 1 := by
    rw [← BitVec.toNat_inj, exponent]
    rfl
  have small : @unpackExponent Format.binary64 number.toBits.toBitVec = 0#_ ↔
      field number % fieldCount = 0 := by
    rw [← BitVec.toNat_inj, exponent]
    rfl
  have whole : @unpackMantissa Format.binary64 number.toBits.toBitVec = 0#_ ↔
      fraction number = 0 := by
    rw [← BitVec.toNat_inj, mantissa]
    rfl
  change UnpackedFloat.unpack Format.binary64 number.toBits.toBitVec = _
  unfold UnpackedFloat.unpack ofFloat
  -- The exponent field tells the infinite numbers first, and then the subnormal ones.
  simp only [signed, special, small, whole, mantissa, exponent, append_leadingBit, bias]
  split
  case isTrue => rfl
  case isFalse =>
    split
    case isTrue subnormal =>
      by_cases zero : fraction number = 0
      · simp [zero]
      · have positive : 0 < fraction number := Nat.pos_of_ne_zero zero
        simp [zero, positive, subnormal]
    case isFalse normal =>
      have positive : 0 < leadingBit + fraction number := Nat.add_pos_left (by decide) _
      rw [dif_pos positive]
      congr 1

theorem unpack_eq_notANumber_iff {number : Float} :
    number.toModel.unpack = .notANumber ↔
      field number % fieldCount = fieldCount - 1 ∧ fraction number ≠ 0 := by
  rw [unpack_eq]
  split_ifs <;> simp_all

theorem unpack_eq_infinity_iff {number : Float} {side : Sign} :
    number.toModel.unpack = .infinity side ↔
      field number % fieldCount = fieldCount - 1 ∧ fraction number = 0 ∧ sign number = side := by
  rw [unpack_eq]
  split_ifs <;> simp_all

theorem unpack_eq_zero_iff {number : Float} {side : Sign} :
    number.toModel.unpack = .zero side ↔
      field number % fieldCount = 0 ∧ fraction number = 0 ∧ sign number = side := by
  rw [unpack_eq, ← and_assoc, ← significand_eq_zero_iff]
  by_cases special : field number % fieldCount = fieldCount - 1
  · have nonzero : (ofFloat number).significand ≠ 0 := by
      rw [ne_eq, significand_eq_zero_iff, special]
      simp [fieldCount]
    split_ifs <;> simp [nonzero]
  · by_cases zero : (ofFloat number).significand = 0
    · simp [special, zero]
    · simp [special, zero, Nat.pos_iff_ne_zero]

/-- A word unpacks to the size that its fields stand for. -/
theorem unpack_eq_finite_iff {number : Float} {side : Sign} {significand : Nat} {exponent : Int}
    {positive : 0 < significand} :
    number.toModel.unpack = .finite side significand exponent positive ↔
      field number % fieldCount ≠ fieldCount - 1 ∧ ofFloat number = ⟨significand, exponent⟩ ∧
        sign number = side := by
  rw [unpack_eq]
  by_cases special : field number % fieldCount = fieldCount - 1
  · rw [if_pos special]
    split_ifs <;> simp [special]
  · rw [if_neg special]
    cases size : ofFloat number with
    | mk ownSignificand ownExponent =>
        by_cases zero : ownSignificand = 0
        · have different : 0 ≠ significand := positive.ne
          simp [zero, different]
        · simp [Nat.pos_iff_ne_zero, zero, special, and_comm, and_assoc]

/-- Numbers that unpack alike are the same. -/
theorem unpack_injective {first second : Float}
    (same : first.toModel.unpack = second.toModel.unpack) : first = second := by
  apply Float.toBits_inj.mp
  apply UInt64.toBitVec_inj.mp
  exact (unpack_inj_of_valid first.toModel.valid second.toModel.valid).mp same

/-- All words that do not stand for a number are the same one. -/
theorem toBits_of_notANumber {number : Float} (undefined : number.toModel.unpack = .notANumber) :
    number.toBits.toBitVec = packedNaN Format.binary64 :=
  (unpack_eq_notANumber_iff_of_valid number.toModel.valid).mp undefined

end Rhythm.Binary
