import Rhythm.Proofs.Binary.Nearest
import Rhythm.Proofs.Decimal.Exact

/-
This file follows sizes, which are zero or positive finite numbers, through products, quotients and
natural numbers. The main statements are `rounds_mul`, `rounds_div` and `rounds_ofNat`, that the
result is the rounded one.
-/

namespace Rhythm.Binary

open Float.Model Float.Model.UnpackedFloat

/-- A sized number is zero or a positive finite number. -/
def Sized (number : Float) : Prop :=
  number = 0 ∨ Lasts number

/-- A sized number is what an exact number is rounded to. -/
structure Rounds (exact : ℚ) (number : Float) : Prop where
  sized : Sized number
  rounds : RoundsTo exact (ofFloat number).value

/-- No exact number up to this one is rounded to infinity. -/
def most : Binary :=
  ⟨leadingBit, 971⟩

section Packed

variable {exact : ℚ} {number : Float} {binary : Binary}

theorem canonical_most : Canonical most :=
  ⟨by decide, by decide, by decide, by decide, .inl le_rfl⟩

/-- All words are below the greatest binary64 number. -/
theorem natCast_le_most {number : Nat} (bound : number < 2 ^ 64) : (number : ℚ) ≤ most.value :=
  calc (number : ℚ) ≤ 2 ^ 64 := by exact_mod_cast bound.le
    _ = leadingBit * 2 ^ (12 : Int) := by norm_num [leadingBit]
    _ ≤ leadingBit * 2 ^ (971 : Int) := by
      gcongr
      · exact one_le_two
      · decide

theorem value_zero : (ofFloat 0).value = 0 := by
  have size : ofFloat 0 = ⟨0, -1074⟩ := by decide
  rw [size, value, Nat.cast_zero, zero_mul]

theorem roundsTo_zero : RoundsTo 0 0 :=
  ⟨-1074, 0, le_rfl, .inl rfl, by positivity, by simpa using nearest_natCast 0, by simp⟩

/-- Nothing but zero is packed from a zero. -/
theorem eq_zero_of_packed (packed : number.toModel = Float.Model.pack (.zero .positive)) :
    number = 0 :=
  congrArg Float.ofModel packed

/-- A size that is small enough is packed as it is. -/
theorem rounds_of_packed (rounded : Rounded binary) (rounds : RoundsTo exact binary.value)
    (bound : exact ≤ most.value)
    (packed : number.toModel = Float.Model.pack (unpackedSize .positive binary)) :
    Rounds exact number := by
  obtain ⟨below, least, normal⟩ := rounded
  unfold unpackedSize at packed
  split at packed
  case isFalse empty =>
    have zero : binary.value = 0 := by
      rw [value, Nat.eq_zero_of_not_pos empty, Nat.cast_zero, zero_mul]
    rw [zero] at rounds
    obtain rfl := eq_zero_of_packed packed
    exact ⟨.inl rfl, by rwa [value_zero]⟩
  case isTrue positive =>
    have room : binary.exponent ≤ 971 := by
      obtain long | subnormal := normal
      · have size := rounds.mono canonical_most.roundsTo bound
        have long : (leadingBit : ℚ) ≤ binary.significand := by exact_mod_cast long
        have scaled : (leadingBit : ℚ) * 2 ^ binary.exponent ≤ leadingBit * 2 ^ (971 : Int) :=
          (mul_le_mul_of_nonneg_right long (by positivity)).trans size
        have leading : (0 : ℚ) < leadingBit := by norm_num [leadingBit]
        exact (zpow_le_zpow_iff_right₀ one_lt_two).mp (le_of_mul_le_mul_left scaled leading)
      · omega
    obtain ⟨lasts, size⟩ :=
      ofFloat_of_packed ⟨positive, below, least, room, normal⟩ packed
    exact ⟨.inr lasts, by rwa [size]⟩

/-- Rounded numbers are in the order of the exact ones. -/
theorem Rounds.mono {first second : ℚ} {below above : Float} (firstRounds : Rounds first below)
    (secondRounds : Rounds second above) (order : first ≤ second) :
    (ofFloat below).value ≤ (ofFloat above).value :=
  firstRounds.rounds.mono secondRounds.rounds order

theorem rounds_value (lasts : Lasts number) : Rounds (ofFloat number).value number := by
  obtain ⟨canonical, -⟩ := unpack_of_lasts lasts
  exact ⟨.inr lasts, canonical.roundsTo⟩

end Packed

section Exact

variable {first second : Binary}

theorem keeps_exact (whole : Nat) :
    Keeps (ExtendedMantissa.ofMantissaAndAccuracy whole .exact) whole := by
  simp [Keeps, halves, ExtendedMantissa.ofMantissaAndAccuracy]

/-- A whole number and a part are kept when it is known how the part compares with a half. -/
theorem keeps_inexact (whole : Nat) {part : ℚ} (positive : 0 < part) (below : part < 1) :
    Keeps (ExtendedMantissa.ofMantissaAndAccuracy whole (.inexact (compare (2 * part) 1)))
      (whole + part) := by
  obtain less | half | more := lt_trichotomy (2 * part) 1
  · rw [compare_lt_iff_lt.mpr less]
    simp only [Keeps, halves, ExtendedMantissa.ofMantissaAndAccuracy, Bool.toNat_false, if_true,
      Nat.cast_add, Nat.cast_mul, Nat.cast_ofNat, Nat.cast_zero]
    exact ⟨by linarith, by linarith⟩
  · rw [compare_eq_iff_eq.mpr half]
    simp only [Keeps, halves, ExtendedMantissa.ofMantissaAndAccuracy, Bool.toNat_true,
      Bool.false_eq_true, if_false, Nat.cast_add, Nat.cast_mul, Nat.cast_ofNat, Nat.cast_one]
    linarith
  · rw [compare_gt_iff_gt.mpr more]
    simp only [Keeps, halves, ExtendedMantissa.ofMantissaAndAccuracy, Bool.toNat_true, if_true,
      Nat.cast_add, Nat.cast_mul, Nat.cast_ofNat, Nat.cast_one]
    exact ⟨by linarith, by linarith⟩

/-- A long division keeps its quotient when it compares what is left with half the divisor. -/
theorem keeps_fraction (dividend : Nat) {divisor : Nat} (positive : 0 < divisor) :
    Keeps (ExtendedMantissa.ofMantissaAndAccuracy (dividend / divisor)
      (accuracyOfFraction (dividend % divisor) divisor)) (dividend / divisor : ℚ) := by
  have scale : (0 : ℚ) < divisor := by exact_mod_cast positive
  have split : (dividend : ℚ) / divisor =
      (dividend / divisor : Nat) + ((dividend % divisor : Nat) : ℚ) / divisor := by
    rw [eq_comm, ← sub_eq_zero, ← mul_right_inj' scale.ne']
    have whole : (divisor * (dividend / divisor : Nat) + (dividend % divisor : Nat) : ℚ) =
        dividend := by exact_mod_cast Nat.div_add_mod dividend divisor
    field_simp
    linarith
  rw [split]
  unfold accuracyOfFraction
  by_cases whole : dividend % divisor = 0
  · rw [if_pos whole, whole, Nat.cast_zero, zero_div, add_zero]
    exact keeps_exact _
  · have rest : (0 : ℚ) < (dividend % divisor : Nat) := by
      exact_mod_cast Nat.pos_of_ne_zero whole
    have below : ((dividend % divisor : Nat) : ℚ) / divisor < 1 := by
      rw [div_lt_one scale]
      exact_mod_cast Nat.mod_lt dividend positive
    -- The division compares whole numbers, and what is kept is a share of one.
    have order : compare (2 * (dividend % divisor)) divisor =
        compare (2 * (((dividend % divisor : Nat) : ℚ) / divisor)) 1 := by
      have scaled : StrictMono fun whole : Nat => (whole : ℚ) / divisor := by
        intro less more order
        exact div_lt_div_of_pos_right (Nat.cast_lt.mpr order) scale
      have same := scaled.cmp_map_eq (2 * (dividend % divisor)) divisor
      simp only [cmp_eq_compare, div_self scale.ne', Nat.cast_mul, mul_div_assoc] at same
      exact same.symm
    rw [if_neg whole, order]
    exact keeps_inexact _ (by positivity) below

end Exact

section Operations

variable {first second dividend divisor : Float}

/-- Canonical sizes have long enough significands for their product to be rounded. -/
theorem product_lower {first second : Binary} (firstCanonical : Canonical first)
    (secondCanonical : Canonical second) :
    first.exponent + second.exponent ≤ Format.binary64.targetExponent
      (totalExponent (first.significand * second.significand)
        (first.exponent + second.exponent)) := by
  have positive := Nat.mul_pos firstCanonical.positive secondCanonical.positive
  rw [targetExponent_eq, totalExponent]
  by_cases least : first.exponent = -1074 ∧ second.exponent = -1074
  · omega
  · have long : leadingBit ≤ first.significand * second.significand := by
      obtain firstLong | firstLeast := firstCanonical.normal
      · exact firstLong.trans (Nat.le_mul_of_pos_right _ secondCanonical.positive)
      · obtain secondLong | secondLeast := secondCanonical.normal
        · exact secondLong.trans (Nat.le_mul_of_pos_left _ firstCanonical.positive)
        · exact absurd ⟨firstLeast, secondLeast⟩ least
    have bits : 52 ≤ (first.significand * second.significand).log2 :=
      (Nat.le_log2 positive.ne').mpr long
    omega

/-- The product of positive sizes is rounded once. -/
theorem exists_rounded_mul (side : Sign) {first second : Binary}
    (firstCanonical : Canonical first) (secondCanonical : Canonical second) :
    ∃ binary, Rounded binary ∧ RoundsTo (first.value * second.value) binary.value ∧
      UnpackedFloat.mul Format.binary64
          (.finite side first.significand first.exponent firstCanonical.positive)
          (.finite .positive second.significand second.exponent secondCanonical.positive) =
        unpackedSize side binary := by
  have keeps := keeps_exact (first.significand * second.significand)
  have scaled : ((first.significand * second.significand : Nat) : ℚ) =
      first.value * second.value / 2 ^ (first.exponent + second.exponent) := by
    rw [value, value, zpow_add₀ two_ne_zero]
    push_cast
    field_simp
  rw [scaled] at keeps
  cases side <;>
    exact roundsTo_roundWithAccuracy _ keeps (product_lower firstCanonical secondCanonical)

/-- A product is the rounded one. -/
theorem rounds_mul (firstSized : Sized first) (secondLasts : Lasts second)
    (bound : (ofFloat first).value * (ofFloat second).value ≤ most.value) :
    Rounds ((ofFloat first).value * (ofFloat second).value) (first * second) := by
  obtain ⟨secondCanonical, secondPositive, secondUnpacked⟩ := unpack_of_lasts secondLasts
  obtain rfl | firstLasts := firstSized
  · have product : 0 * second = 0 := by
      apply eq_zero_of_packed
      change Float.Model.pack (UnpackedFloat.mul Format.binary64 (.zero .positive)
        second.toModel.unpack) = _
      rw [secondUnpacked]
      rfl
    rw [product, value_zero, zero_mul]
    exact ⟨.inl rfl, by rw [value_zero]; exact roundsTo_zero⟩
  · obtain ⟨firstCanonical, firstPositive, firstUnpacked⟩ := unpack_of_lasts firstLasts
    obtain ⟨binary, rounded, rounds, result⟩ :=
      exists_rounded_mul .positive firstCanonical secondCanonical
    refine rounds_of_packed rounded rounds bound ?_
    change Float.Model.pack (UnpackedFloat.mul Format.binary64 first.toModel.unpack
      second.toModel.unpack) = _
    rw [firstUnpacked, secondUnpacked, ← result]

/-- The quotient of a long division has enough bits to be rounded. -/
theorem quotient_lower {dividend divisor : Binary} (dividendPositive : 0 < dividend.significand)
    (divisorPositive : 0 < divisor.significand) {places : Nat} {aim : Int}
    (shift : aim + places = dividend.exponent - divisor.exponent)
    (low : aim ≤ Format.binary64.targetExponent
      (totalExponent dividend.significand dividend.exponent -
        totalExponent divisor.significand divisor.exponent)) :
    aim ≤ Format.binary64.targetExponent
      (totalExponent (dividend.significand * 2 ^ places / divisor.significand) aim) := by
  rw [targetExponent_eq] at low ⊢
  obtain subnormal | room := le_total (totalExponent dividend.significand dividend.exponent -
    totalExponent divisor.significand divisor.exponent - 53) (-1074)
  · omega
  · have long : 2 ^ 52 * divisor.significand ≤ dividend.significand * 2 ^ places := by
      have powers : divisor.significand.log2 + 53 ≤ dividend.significand.log2 + places := by
        simp only [totalExponent] at low room
        omega
      calc 2 ^ 52 * divisor.significand
          ≤ 2 ^ 52 * 2 ^ (divisor.significand.log2 + 1) :=
            Nat.mul_le_mul_left _ Nat.lt_log2_self.le
        _ = 2 ^ (divisor.significand.log2 + 53) := by rw [← pow_add]; congr 1; omega
        _ ≤ 2 ^ (dividend.significand.log2 + places) := Nat.pow_le_pow_right (by decide) powers
        _ = 2 ^ dividend.significand.log2 * 2 ^ places := pow_add _ _ _
        _ ≤ dividend.significand * 2 ^ places :=
            Nat.mul_le_mul_right _ (Nat.log2_self_le dividendPositive.ne')
    have whole := (Nat.le_div_iff_mul_le divisorPositive).mpr long
    have bits := (Nat.le_log2 (Nat.lt_of_lt_of_le (by decide) whole).ne').mpr whole
    rw [totalExponent]
    omega

/-- The quotient of positive sizes is rounded once. -/
theorem exists_rounded_div (side : Sign) {upper lower : Binary}
    (upperPositive : 0 < upper.significand) (lowerPositive : 0 < lower.significand) :
    ∃ binary, Rounded binary ∧ RoundsTo (upper.value / lower.value) binary.value ∧
      UnpackedFloat.div Format.binary64
          (.finite side upper.significand upper.exponent upperPositive)
          (.finite .positive lower.significand lower.exponent lowerPositive) =
        unpackedSize side binary := by
  have room := min_le_left (upper.exponent - lower.exponent) (Format.binary64.targetExponent
    (totalExponent upper.significand upper.exponent -
      totalExponent lower.significand lower.exponent))
  have low := min_le_right (upper.exponent - lower.exponent) (Format.binary64.targetExponent
    (totalExponent upper.significand upper.exponent -
      totalExponent lower.significand lower.exponent))
  generalize aim : min (upper.exponent - lower.exponent) (Format.binary64.targetExponent
    (totalExponent upper.significand upper.exponent -
      totalExponent lower.significand lower.exponent)) = exponent at room low
  obtain ⟨places, shift⟩ := Int.le.dest room
  have keeps := keeps_fraction (upper.significand * 2 ^ places) lowerPositive
  have scaled : ((upper.significand * 2 ^ places : Nat) : ℚ) / lower.significand =
      upper.value / lower.value / 2 ^ exponent := by
    have exponents : upper.exponent = exponent + places + lower.exponent := by omega
    rw [value, value, exponents, zpow_add₀ two_ne_zero, zpow_add₀ two_ne_zero, zpow_natCast]
    push_cast
    field_simp
  rw [scaled] at keeps
  obtain ⟨binary, rounded, rounds, result⟩ := roundsTo_roundWithAccuracy side keeps
    (quotient_lower upperPositive lowerPositive shift low)
  refine ⟨binary, rounded, rounds, ?_⟩
  have amount : (upper.exponent - lower.exponent - exponent).toNat = places := by omega
  rw [← result]
  simp only [UnpackedFloat.div, divCore, aim, amount, Nat.shiftLeft_eq]
  cases side <;> rfl

/-- A quotient is the rounded one. -/
theorem rounds_div (dividendSized : Sized dividend) (divisorLasts : Lasts divisor)
    (bound : (ofFloat dividend).value / (ofFloat divisor).value ≤ most.value) :
    Rounds ((ofFloat dividend).value / (ofFloat divisor).value) (dividend / divisor) := by
  obtain ⟨divisorCanonical, divisorPositive, divisorUnpacked⟩ := unpack_of_lasts divisorLasts
  obtain rfl | dividendLasts := dividendSized
  · have quotient : 0 / divisor = 0 := by
      apply eq_zero_of_packed
      change Float.Model.pack (UnpackedFloat.div Format.binary64 (.zero .positive)
        divisor.toModel.unpack) = _
      rw [divisorUnpacked]
      rfl
    rw [quotient, value_zero, zero_div]
    exact ⟨.inl rfl, by rw [value_zero]; exact roundsTo_zero⟩
  · obtain ⟨-, dividendPositive, dividendUnpacked⟩ := unpack_of_lasts dividendLasts
    obtain ⟨binary, rounded, rounds, result⟩ :=
      exists_rounded_div .positive dividendPositive divisorPositive
    refine rounds_of_packed rounded rounds bound ?_
    change Float.Model.pack (UnpackedFloat.div Format.binary64 dividend.toModel.unpack
      divisor.toModel.unpack) = _
    rw [dividendUnpacked, divisorUnpacked, ← result]

/-- Small natural numbers are binary64 numbers. -/
theorem value_ofNat {number : Nat} (positive : 0 < number) (small : number < 2 ^ 53) :
    Lasts (Float.ofNat number) ∧ (ofFloat (Float.ofNat number)).value = number := by
  obtain ⟨lasts, same⟩ := Decimal.toFloat_natural positive small
  have exact : Float.ofNat number = number.toUInt64.toFloat :=
    Decimal.ofScientific_natural lasts same.symm
  rw [exact]
  exact ⟨lasts, same⟩

/-- Larger ones are rounded. -/
theorem rounds_ofNat {number : Nat} (bound : (number : ℚ) ≤ most.value) :
    Rounds number (Float.ofNat number) := by
  obtain rfl | positive := Nat.eq_zero_or_pos number
  · exact ⟨.inl rfl, by rw [Nat.cast_zero]; exact value_zero ▸ roundsTo_zero⟩
  obtain small | large := Nat.lt_or_ge number (2 ^ 53)
  · obtain ⟨lasts, same⟩ := value_ofNat positive small
    rw [← same]
    exact rounds_value lasts
  · have longer : number ≤ number * 2 ^ 53 := Nat.le_mul_of_pos_right _ (by decide)
    have bits : 53 ≤ (number * 2 ^ 53).log2 :=
      (Nat.le_log2 (positive.trans_le longer).ne').mpr (large.trans longer)
    have keeps := keeps_exact (number * 2 ^ 53)
    have scaled : ((number * 2 ^ 53 : Nat) : ℚ) = number / 2 ^ (-53 : Int) := by
      rw [zpow_neg, div_inv_eq_mul]
      push_cast
      norm_cast
    rw [scaled] at keeps
    obtain ⟨binary, rounded, rounds, result⟩ := roundsTo_roundWithAccuracy .positive keeps (by
      rw [targetExponent_eq, totalExponent]
      omega)
    refine rounds_of_packed rounded rounds bound ?_
    have unscaled : Float.ofNat number = Float.ofModel (Float.Model.pack
        (UnpackedFloat.ofScientific Format.binary64 number 0)) :=
      dif_neg fun small => absurd small.1 (not_lt.mpr large)
    rw [unscaled]
    change Float.Model.pack (UnpackedFloat.ofScientific Format.binary64 number 0) = _
    unfold UnpackedFloat.ofScientific
    rw [dif_neg positive.ne', if_neg (by decide), if_neg (by simp), if_pos (le_refl 0), ← result]
    simp only [UnpackedFloat.mul, Nat.shiftLeft_eq, Int.toNat_zero, pow_zero, mul_one, add_zero]
    rfl

end Operations

section Natural

variable {number : Nat}

/-- A natural number of 53 bits keeps its value. -/
theorem value_natural (small : number < 2 ^ 53) :
    (ofFloat (Float.ofNat number)).value = number := by
  obtain rfl | positive := Nat.eq_zero_or_pos number
  · exact value_zero.trans Nat.cast_zero.symm
  · exact (value_ofNat positive small).2

/-- Natural numbers of 53 bits are rounded to themselves. -/
theorem roundsTo_natural (small : number < 2 ^ 53) : RoundsTo (number : ℚ) number := by
  obtain rfl | positive := Nat.eq_zero_or_pos number
  · exact_mod_cast roundsTo_zero
  · obtain ⟨lasts, same⟩ := value_ofNat positive small
    rw [← same]
    exact (rounds_value lasts).rounds

theorem roundsTo_one : RoundsTo 1 1 := by
  exact_mod_cast roundsTo_natural (by decide : 1 < 2 ^ 53)

end Natural

end Rhythm.Binary
