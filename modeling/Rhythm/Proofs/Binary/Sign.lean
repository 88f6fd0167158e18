import Rhythm.Proofs.Binary.Exact

/-
This file follows the sign of binary64 numbers through packing and division. The main statements
are `eq_of_beq`, that equal numbers without a minus sign are the same, and `div_beq_self`, that a
quotient of positive finite numbers equals itself.
-/

namespace Rhythm.Binary

open Float.Model Float.Model.UnpackedFloat

/-- The sign of an unpacked number. No number counts as positive. -/
def unpackedSign : UnpackedFloat → Sign
  | .notANumber => .positive
  | .infinity side => side
  | .zero side => side
  | .finite side .. => side

/-- Packing keeps the sign. -/
theorem sign_pack {number : Float} {unpacked : UnpackedFloat}
    (packed : number.toModel = Float.Model.pack unpacked) :
    sign number = unpackedSign unpacked := by
  have bits : number.toBits.toBitVec = UnpackedFloat.pack Format.binary64 unpacked := by
    change number.toModel.toBits.toBitVec = _
    rw [packed]
    rfl
  cases unpacked with
  | notANumber => exact (fields_of_packComponents bits).1
  | infinity side => exact (fields_of_packComponents bits).1
  | zero side => exact (fields_of_packComponents bits).1
  | finite side significand exponent positive =>
      unfold UnpackedFloat.pack at bits
      dsimp only at bits
      split at bits
      · exact (fields_of_packComponents bits).1
      · split at bits
        · exact (fields_of_packComponents bits).1
        · exact (fields_of_packComponents bits).1

/-- Unpacking keeps the sign. -/
theorem unpackedSign_unpack (number : Float) :
    unpackedSign number.toModel.unpack = sign number := by
  cases unpacked : number.toModel.unpack with
  | notANumber => exact (fields_of_packComponents (toBits_of_notANumber unpacked)).1.symm
  | infinity side => exact (unpack_eq_infinity_iff.mp unpacked).2.2.symm
  | zero side => exact (unpack_eq_zero_iff.mp unpacked).2.2.symm
  | finite side significand exponent positive =>
      exact (unpack_eq_finite_iff.mp unpacked).2.2.symm

/-- Rounding keeps the sign. -/
theorem unpackedSign_roundWithAccuracy (format : Format) (side : Sign) (significand : Nat)
    (exponent : Int) (accuracy : Accuracy) :
    unpackedSign (roundWithAccuracy format side significand exponent accuracy) = side := by
  unfold roundWithAccuracy
  dsimp only
  split <;> rfl

theorem unpackedSign_div {format : Format} {dividend divisor : UnpackedFloat}
    (dividendPlus : unpackedSign dividend = .positive)
    (divisorPlus : unpackedSign divisor = .positive) :
    unpackedSign (UnpackedFloat.div format dividend divisor) = .positive := by
  cases dividend <;> cases divisor <;> simp only [unpackedSign] at dividendPlus divisorPlus <;>
    subst_vars <;> first | rfl | exact unpackedSign_roundWithAccuracy _ _ _ _ _

/-- A quotient of numbers without a minus sign has none. -/
theorem sign_div {dividend divisor : Float} (dividendPlus : sign dividend = .positive)
    (divisorPlus : sign divisor = .positive) : sign (dividend / divisor) = .positive := by
  have packed : (dividend / divisor).toModel = Float.Model.pack
      (UnpackedFloat.div Format.binary64 dividend.toModel.unpack divisor.toModel.unpack) := rfl
  rw [sign_pack packed]
  refine unpackedSign_div ?_ ?_
  · rw [unpackedSign_unpack, dividendPlus]
  · rw [unpackedSign_unpack, divisorPlus]

/-- A word stands for a number without a minus sign. -/
theorem sign_toFloat (word : UInt32) : sign word.toFloat = .positive := by
  have packed : word.toFloat.toModel = Float.Model.pack
      (UnpackedFloat.normalize Format.binary64 (word.toNat : Int) 0 .positive) := rfl
  rw [sign_pack packed]
  unfold UnpackedFloat.normalize
  split
  case h_1 below =>
    rw [Int.compare_eq_lt] at below
    omega
  case h_2 => rfl
  case h_3 => exact unpackedSign_roundWithAccuracy _ _ _ _ _

/-- Unpacked numbers that compare as equal are the same, except for the sign of a zero. -/
theorem unpacked_eq_of_beq {first second : UnpackedFloat}
    (firstPlus : unpackedSign first = .positive) (secondPlus : unpackedSign second = .positive)
    (same : first.beq second = true) : first = second := by
  obtain ⟨-, -, equal | ⟨-, zero⟩ | ⟨zero, -⟩⟩ := (beq_iff_ne_notANumber_and_eq _ _).mp same
  · exact equal
  · rw [zero] at secondPlus
    cases secondPlus
  · rw [zero] at firstPlus
    cases firstPlus

/-- Equal numbers without a minus sign are the same. -/
theorem eq_of_beq {first second : Float} (firstPlus : sign first = .positive)
    (secondPlus : sign second = .positive) (same : (first == second) = true) :
    first = second := by
  rw [← unpackedSign_unpack] at firstPlus secondPlus
  exact unpack_injective (unpacked_eq_of_beq firstPlus secondPlus same)

/-- Packing makes no number out of one. -/
theorem unpack_ne_notANumber {number : Float} {unpacked : UnpackedFloat}
    (packed : number.toModel = Float.Model.pack unpacked) (defined : unpacked ≠ .notANumber) :
    number.toModel.unpack ≠ .notANumber := by
  rw [ne_eq, unpack_eq_notANumber_iff]
  intro undefined
  obtain ⟨special, fractional⟩ := undefined
  have bits : number.toBits.toBitVec = UnpackedFloat.pack Format.binary64 unpacked := by
    change number.toModel.toBits.toBitVec = _
    rw [packed]
    rfl
  cases unpacked with
  | notANumber => exact defined rfl
  | infinity side => exact fractional (fields_of_packComponents bits).2.2
  | zero side => exact fractional (fields_of_packComponents bits).2.2
  | finite side significand exponent positive =>
      unfold UnpackedFloat.pack at bits
      dsimp only at bits
      split at bits
      case isTrue => exact fractional (fields_of_packComponents bits).2.2
      case isFalse room =>
        split at bits
        case isTrue =>
          have power := (fields_of_packComponents bits).2.1
          rw [special, BitVec.toNat_ofNat, Nat.mod_eq_of_lt (by omega)] at power
          exact room (Nat.le_of_eq (congrArg Nat.succ power))
        case isFalse =>
          have power := (fields_of_packComponents bits).2.1
          rw [special] at power
          cases power

/-- Rounding gives a number. -/
theorem roundWithAccuracy_ne_notANumber (format : Format) (side : Sign) (significand : Nat)
    (exponent : Int) (accuracy : Accuracy) :
    roundWithAccuracy format side significand exponent accuracy ≠ .notANumber := by
  unfold roundWithAccuracy
  dsimp only
  split <;> simp

/-- Only no number differs from itself. -/
theorem beq_self_of_ne_notANumber {number : Float}
    (defined : number.toModel.unpack ≠ .notANumber) : (number == number) = true := by
  change number.toModel.unpack.beq number.toModel.unpack = true
  apply (beq_iff_ne_notANumber_and_eq _ _).mpr
  exact ⟨defined, defined, Or.inl rfl⟩

/-- A quotient of positive finite numbers equals itself. -/
theorem div_beq_self {dividend divisor : Float} (dividendLasts : Lasts dividend)
    (divisorLasts : Lasts divisor) : (dividend / divisor == dividend / divisor) = true := by
  obtain ⟨-, dividendPositive, dividendUnpacked⟩ := unpack_of_lasts dividendLasts
  obtain ⟨-, divisorPositive, divisorUnpacked⟩ := unpack_of_lasts divisorLasts
  have packed : (dividend / divisor).toModel = Float.Model.pack
      (UnpackedFloat.div Format.binary64 dividend.toModel.unpack divisor.toModel.unpack) := rfl
  apply beq_self_of_ne_notANumber
  apply unpack_ne_notANumber packed
  rw [dividendUnpacked, divisorUnpacked]
  exact roundWithAccuracy_ne_notANumber _ _ _ _ _

/-- A positive word stands for a positive finite number. -/
theorem lasts_toFloat {word : UInt32} (positive : 0 < word) : Lasts word.toFloat := by
  have natural : 0 < word.toNat := UInt32.lt_iff_toNat_lt.mp positive
  have small : word.toNat < 2 ^ 53 := word.toNat_lt.trans (by decide)
  exact (lasts_of_natural natural small rfl).1

end Rhythm.Binary
