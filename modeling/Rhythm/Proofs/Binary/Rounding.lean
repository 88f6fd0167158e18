import Rhythm.Proofs.Binary.Sign

/-
This file shows that rounding keeps a long significand within the binary64 range. The main
statements are `exists_canonical_roundWithAccuracy` and `lasts_div_toFloat`, that a quotient of
positive words is a positive finite number.
-/

namespace Rhythm.Binary

open Float.Model Float.Model.UnpackedFloat

/-- A shift to the right divides the significand. -/
theorem shiftRight_mantissa (extended : ExtendedMantissa) (places : Nat) :
    (extended >>> places).mantissa = extended.mantissa / 2 ^ places := by
  change (places.repeat ExtendedMantissa.shiftRightOne extended).mantissa = _
  induction places with
  | zero => rw [Nat.pow_zero, Nat.div_one, Nat.repeat]
  | succ places inductionHypothesis =>
      rw [Nat.repeat, ExtendedMantissa.shiftRightOne, inductionHypothesis, Nat.div_div_eq_div_mul,
        Nat.pow_succ]

/-- Rounding keeps a significand or takes the next one. -/
theorem roundedMantissa_bounds (extended : ExtendedMantissa) :
    extended.mantissa ≤ extended.roundedMantissa ∧
      extended.roundedMantissa ≤ extended.mantissa + 1 := by
  obtain ⟨significand, round, sticky⟩ := extended
  cases round <;> cases sticky <;>
    simp only [ExtendedMantissa.roundedMantissa, ExtendedMantissa.accuracy,
      Accuracy.roundToNearestEven] <;> omega

theorem mantissa_ofMantissaAndAccuracy (significand : Nat) (accuracy : Accuracy) :
    (ExtendedMantissa.ofMantissaAndAccuracy significand accuracy).mantissa = significand := by
  cases accuracy with
  | exact => rfl
  | inexact order => cases order <;> rfl

/-- A long significand loses the places that it has too many. -/
theorem shiftToTargetExponent_long {significand : Nat} {exponent : Int} (accuracy : Accuracy)
    (long : leadingBit ≤ significand)
    (least : -1074 ≤ exponent + (significand.log2 - 52 : Nat)) :
    ∃ extended : ExtendedMantissa,
      shiftToTargetExponent Format.binary64 significand exponent accuracy =
        (extended, exponent + (significand.log2 - 52 : Nat)) ∧
      leadingBit ≤ extended.mantissa ∧ extended.mantissa < 2 * leadingBit := by
  have positive : significand ≠ 0 := (Nat.lt_of_lt_of_le (by decide) long).ne'
  have bits : 52 ≤ significand.log2 := (Nat.le_log2 positive).mpr long
  have aim : Format.binary64.targetExponent (totalExponent significand exponent) =
      exponent + (significand.log2 - 52 : Nat) := by
    rw [targetExponent_eq, totalExponent]
    omega
  obtain ⟨places, total⟩ := Nat.exists_eq_add_of_le bits
  have shift : significand.log2 - 52 = places := by omega
  rw [shift] at aim ⊢
  have amount : (exponent + (places : Int) - exponent).toNat = places := by omega
  refine ⟨ExtendedMantissa.ofMantissaAndAccuracy significand accuracy >>> places, ?_, ?_, ?_⟩
  · rw [shiftToTargetExponent, aim, shiftToExponent, amount]
  · rw [shiftRight_mantissa, mantissa_ofMantissaAndAccuracy,
      Nat.le_div_iff_mul_le (Nat.two_pow_pos places)]
    calc leadingBit * 2 ^ places = 2 ^ significand.log2 := by rw [total, pow_add]; rfl
      _ ≤ significand := Nat.log2_self_le positive
  · rw [shiftRight_mantissa, mantissa_ofMantissaAndAccuracy,
      Nat.div_lt_iff_lt_mul (Nat.two_pow_pos places)]
    calc significand < 2 ^ (significand.log2 + 1) := Nat.lt_log2_self
      _ = 2 * leadingBit * 2 ^ places := by rw [total, pow_succ', pow_add, mul_assoc]; rfl

/-- Rounding a long significand gives a canonical size. -/
theorem exists_canonical_roundWithAccuracy {significand : Nat} {exponent : Int} (side : Sign)
    (accuracy : Accuracy) (long : leadingBit ≤ significand)
    (least : -1074 ≤ exponent + (significand.log2 - 52 : Nat))
    (greatest : exponent + (significand.log2 - 52 : Nat) < 971) :
    ∃ binary, ∃ canonical : Canonical binary,
      roundWithAccuracy Format.binary64 side significand exponent accuracy =
        .finite side binary.significand binary.exponent canonical.positive := by
  obtain ⟨extended, first, lower, upper⟩ := shiftToTargetExponent_long accuracy long least
  obtain ⟨kept, raised⟩ := roundedMantissa_bounds extended
  generalize exponent + (significand.log2 - 52 : Nat) = shifted at first least greatest
  obtain ⟨binary, canonical, lowered, same⟩ : ∃ binary, ∃ _ : Canonical binary,
      shifted ≤ binary.exponent ∧
        (⟨extended.roundedMantissa, shifted⟩ : Binary).value = binary.value := by
    by_cases below : extended.roundedMantissa < 2 * leadingBit
    · exact ⟨⟨extended.roundedMantissa, shifted⟩,
        ⟨Nat.lt_of_lt_of_le (by decide) (lower.trans kept), below, least, greatest.le,
          .inl (lower.trans kept)⟩, le_refl _, rfl⟩
    · -- Rounding has carried into a new leading bit, so the exponent goes up by one.
      have full : extended.roundedMantissa = 2 * leadingBit := by omega
      refine ⟨⟨leadingBit, shifted + 1⟩, ⟨show 0 < leadingBit by decide,
        show leadingBit < 2 * leadingBit by decide, by simp only; omega, by simp only; omega,
        .inl (le_refl _)⟩, by simp only; omega, ?_⟩
      rw [full, value, value, zpow_add_one₀ two_ne_zero]
      push_cast
      ring
  have second := shiftToTargetExponent_exact canonical same lowered
  refine ⟨binary, canonical, ?_⟩
  unfold roundWithAccuracy
  rw [first]
  simp only [second]
  exact dif_neg canonical.positive.ne'

/-- A size from one on that fits into a word has a long significand and no large exponent. -/
theorem Canonical.long_of_value {binary : Binary} (canonical : Canonical binary)
    (atLeast : 1 ≤ binary.value) (below : binary.value < 2 ^ 32) :
    leadingBit ≤ binary.significand ∧ -52 ≤ binary.exponent ∧ binary.exponent ≤ -21 := by
  obtain ⟨lower, upper⟩ := value_bounds canonical.positive
  have least := (zpow_lt_zpow_iff_right₀ (one_lt_two (α := ℚ))).mp
    (show (2 : ℚ) ^ (0 : Int) < 2 ^ _ by simpa using atLeast.trans_lt upper)
  have most := (zpow_lt_zpow_iff_right₀ (one_lt_two (α := ℚ))).mp
    (show (2 : ℚ) ^ _ < 2 ^ (32 : Int) from lower.trans_lt (by exact_mod_cast below))
  have aim := canonical.targetExponent
  rw [targetExponent_eq] at aim
  have bits : 52 ≤ binary.significand.log2 := by
    rw [totalExponent] at aim least
    omega
  exact ⟨(Nat.le_log2 canonical.positive.ne').mp bits, by omega, by omega⟩

/-- The significand of a quotient of long significands is long. -/
theorem quotient_bounds {dividend divisor : Nat} (dividendLong : leadingBit ≤ dividend)
    (dividendBelow : dividend < 2 * leadingBit) (divisorLong : leadingBit ≤ divisor)
    (divisorBelow : divisor < 2 * leadingBit) :
    leadingBit ≤ dividend * 2 ^ 53 / divisor ∧ (dividend * 2 ^ 53 / divisor).log2 ≤ 53 := by
  have divisorPositive : 0 < divisor := Nat.lt_of_lt_of_le (by decide) divisorLong
  have long : leadingBit ≤ dividend * 2 ^ 53 / divisor := by
    rw [Nat.le_div_iff_mul_le divisorPositive]
    simp only [leadingBit] at *
    omega
  refine ⟨long, Nat.lt_succ_iff.mp ?_⟩
  rw [Nat.log2_lt (Nat.lt_of_lt_of_le (by decide) long).ne', Nat.div_lt_iff_lt_mul divisorPositive]
  simp only [leadingBit] at *
  omega

/-- A quotient of sizes that fit into words has a canonical size. -/
theorem exists_canonical_div {dividend divisor : Binary} (dividendCanonical : Canonical dividend)
    (divisorCanonical : Canonical divisor) (dividendAtLeast : 1 ≤ dividend.value)
    (dividendBelow : dividend.value < 2 ^ 32) (divisorAtLeast : 1 ≤ divisor.value)
    (divisorBelow : divisor.value < 2 ^ 32) :
    ∃ binary, ∃ canonical : Canonical binary,
      UnpackedFloat.div Format.binary64
          (.finite .positive dividend.significand dividend.exponent dividendCanonical.positive)
          (.finite .positive divisor.significand divisor.exponent divisorCanonical.positive) =
        .finite .positive binary.significand binary.exponent canonical.positive := by
  obtain ⟨dividendLong, dividendLeast, dividendMost⟩ :=
    dividendCanonical.long_of_value dividendAtLeast dividendBelow
  obtain ⟨divisorLong, divisorLeast, divisorMost⟩ :=
    divisorCanonical.long_of_value divisorAtLeast divisorBelow
  obtain ⟨long, bits⟩ := quotient_bounds dividendLong dividendCanonical.below divisorLong
    divisorCanonical.below
  have dividendBits := (log2_add_one_eq_iff dividendCanonical.positive dividendCanonical.below).mpr
    dividendLong
  have divisorBits := (log2_add_one_eq_iff divisorCanonical.positive divisorCanonical.below).mpr
    divisorLong
  have mantissa : Format.binary64.mantissaBits = 53 := rfl
  rw [mantissa] at dividendBits divisorBits
  have aim : min (dividend.exponent - divisor.exponent) (Format.binary64.targetExponent
      (totalExponent dividend.significand dividend.exponent -
        totalExponent divisor.significand divisor.exponent)) =
      dividend.exponent - divisor.exponent - 53 := by
    rw [targetExponent_eq, totalExponent, totalExponent]
    omega
  have places : (dividend.exponent - divisor.exponent -
      (dividend.exponent - divisor.exponent - 53)).toNat = 53 := by omega
  simp only [UnpackedFloat.div, divCore, aim, places, Nat.shiftLeft_eq]
  exact exists_canonical_roundWithAccuracy .positive _ long (by omega) (by omega)

/-- A positive word keeps its value. -/
theorem value_toFloat {word : UInt32} (positive : 0 < word) :
    (ofFloat word.toFloat).value = word.toNat := by
  have natural : 0 < word.toNat := UInt32.lt_iff_toNat_lt.mp positive
  have small : word.toNat < 2 ^ 53 := word.toNat_lt.trans (by decide)
  exact (lasts_of_natural natural small rfl).2

/-- A positive word unpacks to a size from one on that fits into a word. -/
theorem size_toFloat {word : UInt32} (positive : 0 < word) :
    1 ≤ (ofFloat word.toFloat).value ∧ (ofFloat word.toFloat).value < 2 ^ 32 ∧
      ∃ canonical : Canonical (ofFloat word.toFloat), word.toFloat.toModel.unpack =
        .finite .positive (ofFloat word.toFloat).significand (ofFloat word.toFloat).exponent
          canonical.positive := by
  have natural : 0 < word.toNat := UInt32.lt_iff_toNat_lt.mp positive
  obtain ⟨canonical, _, unpacked⟩ := unpack_of_lasts (lasts_toFloat positive)
  rw [value_toFloat positive]
  exact ⟨by exact_mod_cast natural, by exact_mod_cast word.toNat_lt, canonical, unpacked⟩

/-- A quotient of positive words is a positive finite number. -/
theorem lasts_div_toFloat {dividend divisor : UInt32} (dividendPositive : 0 < dividend)
    (divisorPositive : 0 < divisor) : Lasts (dividend.toFloat / divisor.toFloat) := by
  obtain ⟨dividendAtLeast, dividendBelow, dividendCanonical, dividendUnpacked⟩ :=
    size_toFloat dividendPositive
  obtain ⟨divisorAtLeast, divisorBelow, divisorCanonical, divisorUnpacked⟩ :=
    size_toFloat divisorPositive
  obtain ⟨binary, canonical, quotient⟩ := exists_canonical_div dividendCanonical divisorCanonical
    dividendAtLeast dividendBelow divisorAtLeast divisorBelow
  refine (ofFloat_of_packed canonical ?_).1
  change Float.Model.pack (UnpackedFloat.div Format.binary64 dividend.toFloat.toModel.unpack
    divisor.toFloat.toModel.unpack) = _
  rw [dividendUnpacked, divisorUnpacked, quotient]

end Rhythm.Binary
