import Rhythm.Proofs.Binary.Unpacked

/-
This file shows that binary64 arithmetic rounds nothing away when the exact result is a binary64
number. The main statements are `mul_eq_of_value_eq` and `div_eq_of_value_eq`.
-/

namespace Rhythm.Binary

open Float.Model Float.Model.UnpackedFloat

/-- The number that a significand and an exponent stand for. -/
def value (binary : Binary) : ℚ :=
  binary.significand * 2 ^ binary.exponent

/-- The product of two sizes, before any rounding. -/
def product (first second : Binary) : Binary :=
  ⟨first.significand * second.significand, first.exponent + second.exponent⟩

/-- The same size over a lower exponent. -/
def lowered (binary : Binary) (exponent : Int) : Binary :=
  ⟨binary.significand * 2 ^ (binary.exponent - exponent).toNat, exponent⟩

theorem value_product (first second : Binary) :
    (first.product second).value = first.value * second.value := by
  simp only [value, product]
  push_cast
  rw [zpow_add₀ two_ne_zero]
  ring

theorem value_lowered {binary : Binary} {exponent : Int} (lower : exponent ≤ binary.exponent) :
    (binary.lowered exponent).value = binary.value := by
  have places : binary.exponent = (binary.exponent - exponent).toNat + exponent := by omega
  simp only [value, lowered]
  push_cast
  rw [mul_assoc, ← zpow_natCast, ← zpow_add₀ two_ne_zero, ← places]

/-- A size with a positive significand is positive. -/
theorem value_pos {binary : Binary} (positive : 0 < binary.significand) : 0 < binary.value := by
  unfold value
  positivity

/-- A size is a fraction of natural numbers. -/
theorem value_eq_div (binary : Binary) :
    binary.value = binary.numerator / binary.denominator := by
  obtain ⟨significand, exponent⟩ := binary
  simp only [value, numerator, denominator, Nat.pow_eq]
  push_cast
  obtain whole | part := le_total 0 exponent
  · obtain ⟨places, rfl⟩ := Int.eq_ofNat_of_zero_le whole
    simp
  · obtain ⟨places, equation⟩ := Int.eq_ofNat_of_zero_le (neg_nonneg.mpr part)
    rw [show exponent = -(places : Int) by omega]
    simp [div_eq_mul_inv]

/-- A size is canonical when it fits into a binary64 word and its significand is as long as the
exponent allows. -/
structure Canonical (binary : Binary) : Prop where
  positive : 0 < binary.significand
  below : binary.significand < 2 * leadingBit
  least : -1074 ≤ binary.exponent
  greatest : binary.exponent ≤ 971
  normal : leadingBit ≤ binary.significand ∨ binary.exponent = -1074

/-- The sizes of binary64 numbers are canonical, apart from zero. -/
theorem canonical_ofFloat {number : Float} (ordinary : field number % fieldCount ≠ fieldCount - 1)
    (positive : 0 < (ofFloat number).significand) : Canonical (ofFloat number) := by
  have bits : fraction number < leadingBit := Nat.mod_lt _ (by decide)
  have power : field number % fieldCount < fieldCount := Nat.mod_lt _ (by decide)
  simp only [fieldCount] at ordinary power
  by_cases subnormal : field number % fieldCount = 0
  · rw [ofFloat_of_subnormal subnormal] at positive ⊢
    exact ⟨positive, by simp only; omega, by simp, by simp, .inr rfl⟩
  · rw [ofFloat_of_normal subnormal] at positive ⊢
    simp only [fieldCount] at subnormal ⊢
    exact ⟨positive, by simp only; omega, by simp only; omega, by simp only; omega,
      .inl (Nat.le_add_right _ _)⟩

/-- Numbers are compared by what they unpack to. -/
theorem lt_iff_unpack {first second : Float} :
    first < second ↔ first.toModel.unpack.lt second.toModel.unpack = true := by
  change decide (first.toModel < second.toModel) = true ↔ _
  rw [decide_eq_true_iff]
  rfl

/-- A positive finite number unpacks to its size. -/
theorem unpack_of_lasts {number : Float} (lasts : Lasts number) :
    Canonical (ofFloat number) ∧ ∃ positive, number.toModel.unpack =
      .finite .positive (ofFloat number).significand (ofFloat number).exponent positive := by
  obtain ⟨greater, finite⟩ := lasts
  rw [lt_iff_unpack] at greater
  change number.toModel.unpack.isFinite = true at finite
  rw [show (0 : Float).toModel.unpack = .zero .positive from rfl] at greater
  cases unpacked : number.toModel.unpack with
  | notANumber => simp [unpacked, UnpackedFloat.isFinite] at finite
  | infinity side => simp [unpacked, UnpackedFloat.isFinite] at finite
  | zero side => simp [unpacked, UnpackedFloat.lt, UnpackedFloat.compare] at greater
  | finite side significand exponent positive =>
      obtain ⟨ordinary, size, _⟩ := unpack_eq_finite_iff.mp unpacked
      have canonical := canonical_ofFloat ordinary (by rw [size]; exact positive)
      rw [size] at canonical ⊢
      cases side with
      | negative => simp [unpacked, UnpackedFloat.lt, UnpackedFloat.compare] at greater
      | positive => exact ⟨canonical, positive, rfl⟩

/-- A number that unpacks to a positive size lasts. -/
theorem lasts_of_unpack {number : Float} {significand : Nat} {exponent : Int}
    {positive : 0 < significand}
    (unpacked : number.toModel.unpack = .finite .positive significand exponent positive) :
    Lasts number := by
  constructor
  · rw [lt_iff_unpack, unpacked]
    rfl
  · change number.toModel.unpack.isFinite = true
    rw [unpacked]
    rfl

/-- A word that is put together from fields has these fields. -/
theorem fields_of_packComponents {number : Float} {side : Sign} {power : BitVec 11}
    {bits : BitVec 52}
    (packed : number.toBits.toBitVec = packComponents Format.binary64 side power bits) :
    sign number = side ∧ field number % fieldCount = power.toNat ∧
      fraction number = bits.toNat := by
  have signed := ofBitVec_unpackSign number
  have exponent := unpackExponent_toNat number.toBits.toBitVec
  have mantissa := unpackMantissa_toNat number.toBits.toBitVec
  rw [packed, unpackSign_packComponents] at signed
  rw [packed, unpackExponent_packComponents, ← packed] at exponent
  rw [packed, unpackMantissa_packComponents, ← packed] at mantissa
  refine ⟨?_, exponent.symm, mantissa.symm⟩
  rw [← signed]
  cases side <;> rfl

/-- A significand is full when it has its leading bit. -/
theorem log2_add_one_eq_iff {significand : Nat} (positive : 0 < significand)
    (below : significand < 2 * leadingBit) :
    significand.log2 + 1 = Format.binary64.mantissaBits ↔ leadingBit ≤ significand := by
  have bits : Format.binary64.mantissaBits = 53 := rfl
  have short : significand.log2 < 53 := (Nat.log2_lt positive.ne').mpr below
  have long : 2 ^ 52 ≤ significand ↔ 52 ≤ significand.log2 := (Nat.le_log2 positive.ne').symm
  rw [show leadingBit = 2 ^ 52 from rfl]
  omega

/-- A canonical size is kept by a word. -/
theorem unpack_pack {side : Sign} {binary : Binary} (canonical : Canonical binary)
    (positive : 0 < binary.significand) :
    (Float.Model.pack (.finite side binary.significand binary.exponent positive)).unpack =
      .finite side binary.significand binary.exponent positive := by
  obtain ⟨-, below, least, greatest, normal⟩ := canonical
  have bias : ((Format.exponentBias Format.binary64 : Nat) : Int) = 1023 := by decide
  let number := Float.ofModel
    (Float.Model.pack (.finite side binary.significand binary.exponent positive))
  let power : Nat := (binary.exponent + 1023 + 52).toNat
  have room : ¬ 2 ^ 11 ≤ power + 1 := by omega
  have packed : number.toBits.toBitVec = if leadingBit ≤ binary.significand then
      packComponents Format.binary64 side (BitVec.ofNat 11 power)
        (BitVec.ofNat 52 binary.significand)
      else packComponents Format.binary64 side 0#11 (BitVec.ofNat 52 binary.significand) := by
    change UnpackedFloat.pack Format.binary64
      (.finite side binary.significand binary.exponent positive) = _
    unfold UnpackedFloat.pack
    simp only [bias, log2_add_one_eq_iff positive below]
    exact if_neg room
  change number.toModel.unpack = _
  rw [unpack_eq_finite_iff]
  by_cases long : leadingBit ≤ binary.significand
  · rw [if_pos long] at packed
    obtain ⟨signs, powers, fractions⟩ := fields_of_packComponents packed
    simp only [BitVec.toNat_ofNat, leadingBit] at powers fractions below long
    have exponent : field number % fieldCount ≠ 0 := by omega
    refine ⟨by simp only [fieldCount] at *; omega, ?_, signs⟩
    rw [ofFloat_of_normal exponent, Binary.mk.injEq]
    exact ⟨by simp only [leadingBit]; omega, by omega⟩
  · rw [if_neg long] at packed
    obtain ⟨signs, powers, fractions⟩ := fields_of_packComponents packed
    simp only [BitVec.toNat_ofNat, leadingBit] at powers fractions long
    refine ⟨by rw [powers]; decide, ?_, signs⟩
    rw [ofFloat_of_subnormal powers, Binary.mk.injEq]
    exact ⟨by omega, (normal.resolve_left long).symm⟩

/-- A number that is packed from a canonical size has that size. -/
theorem ofFloat_of_packed {number : Float} {binary : Binary} (canonical : Canonical binary)
    (packed : number.toModel = Float.Model.pack
      (.finite .positive binary.significand binary.exponent canonical.positive)) :
    Lasts number ∧ ofFloat number = binary := by
  have unpacked : number.toModel.unpack = .finite .positive binary.significand binary.exponent
      canonical.positive := by
    rw [packed]
    exact unpack_pack canonical canonical.positive
  exact ⟨lasts_of_unpack unpacked, (unpack_eq_finite_iff.mp unpacked).2.1⟩

/-- A positive finite number is packed from its size. -/
theorem eq_of_packed {number other : Float} (lasts : Lasts number)
    (packed : ∃ positive, other.toModel = Float.Model.pack
      (.finite .positive (ofFloat number).significand (ofFloat number).exponent positive)) :
    other = number := by
  obtain ⟨canonical, positive, unpacked⟩ := unpack_of_lasts lasts
  obtain ⟨_, packed⟩ := packed
  apply unpack_injective
  rw [packed, unpacked]
  exact unpack_pack canonical positive

/-- Zeros below the significand are shifted out without a trace. -/
theorem shiftRight_exact (significand places : Nat) :
    (⟨significand * 2 ^ places, false, false⟩ : ExtendedMantissa) >>> places =
      ⟨significand, false, false⟩ := by
  change places.repeat ExtendedMantissa.shiftRightOne _ = _
  induction places generalizing significand with
  | zero => simp [Nat.repeat]
  | succ places inductionHypothesis =>
      rw [Nat.repeat, Nat.pow_succ', ← Nat.mul_assoc, inductionHypothesis]
      simp [ExtendedMantissa.shiftRightOne]

/-- The position of the leading bit bounds a number. -/
theorem value_bounds {binary : Binary} (positive : 0 < binary.significand) :
    (2 : ℚ) ^ (totalExponent binary.significand binary.exponent - 1) ≤ binary.value ∧
      binary.value < 2 ^ totalExponent binary.significand binary.exponent := by
  have scale : (0 : ℚ) < 2 ^ binary.exponent := by positivity
  have lower : (2 : ℚ) ^ binary.significand.log2 ≤ binary.significand := by
    exact_mod_cast Nat.log2_self_le positive.ne'
  have upper : (binary.significand : ℚ) < 2 ^ (binary.significand.log2 + 1) := by
    exact_mod_cast Nat.lt_log2_self
  unfold value totalExponent
  constructor
  · rw [show (binary.significand.log2 : Int) + 1 + binary.exponent - 1 =
      binary.significand.log2 + binary.exponent by ring, zpow_add₀ two_ne_zero, zpow_natCast]
    exact mul_le_mul_of_nonneg_right lower scale.le
  · rw [zpow_add₀ two_ne_zero, ← Nat.cast_succ, zpow_natCast]
    exact mul_lt_mul_of_pos_right upper scale

/-- The position of the leading bit depends on the number only. -/
theorem totalExponent_eq_of_value_eq {first second : Binary} (firstPositive : 0 < first.significand)
    (secondPositive : 0 < second.significand) (same : first.value = second.value) :
    totalExponent first.significand first.exponent =
      totalExponent second.significand second.exponent := by
  obtain ⟨firstLower, firstUpper⟩ := value_bounds firstPositive
  obtain ⟨secondLower, secondUpper⟩ := value_bounds secondPositive
  have below := (zpow_lt_zpow_iff_right₀ (one_lt_two (α := ℚ))).mp
    (firstLower.trans_lt (same.trans_lt secondUpper))
  have above := (zpow_lt_zpow_iff_right₀ (one_lt_two (α := ℚ))).mp
    (secondLower.trans_lt (same.symm.trans_lt firstUpper))
  omega

theorem targetExponent_eq (total : Int) :
    Format.binary64.targetExponent total = max (total - 53) (-1074) :=
  rfl

/-- A canonical size has the exponent that rounding aims at. -/
theorem Canonical.targetExponent {binary : Binary} (canonical : Canonical binary) :
    Format.binary64.targetExponent (totalExponent binary.significand binary.exponent) =
      binary.exponent := by
  obtain ⟨positive, below, least, -, normal⟩ := canonical
  have short : binary.significand.log2 < 53 := (Nat.log2_lt positive.ne').mpr below
  rw [targetExponent_eq, totalExponent]
  obtain long | subnormal := normal
  · have bits : 52 ≤ binary.significand.log2 := (Nat.le_log2 positive.ne').mpr long
    omega
  · omega

/-- A significand over a lower exponent ends in zeros. -/
theorem significand_eq_of_value_eq {coarse fine : Binary} (same : fine.value = coarse.value)
    (lower : fine.exponent ≤ coarse.exponent) :
    fine.significand = coarse.significand * 2 ^ (coarse.exponent - fine.exponent).toNat := by
  have places : coarse.exponent = (coarse.exponent - fine.exponent).toNat + fine.exponent := by
    omega
  have scale : (2 : ℚ) ^ fine.exponent ≠ 0 := by positivity
  unfold value at same
  rw [places, zpow_add₀ two_ne_zero, zpow_natCast, ← mul_assoc] at same
  exact_mod_cast mul_right_cancel₀ scale same

/-- The shift before rounding loses nothing. -/
theorem shiftToTargetExponent_exact {binary fine : Binary} (canonical : Canonical binary)
    (same : fine.value = binary.value) (lower : fine.exponent ≤ binary.exponent) :
    shiftToTargetExponent Format.binary64 fine.significand fine.exponent .exact =
      (⟨binary.significand, false, false⟩, binary.exponent) := by
  have significands := significand_eq_of_value_eq same lower
  have positive : 0 < fine.significand := by
    rw [significands]
    exact Nat.mul_pos canonical.positive (by positivity)
  have aim := totalExponent_eq_of_value_eq positive canonical.positive same
  simp only [shiftToTargetExponent, shiftToExponent, ExtendedMantissa.ofMantissaAndAccuracy]
  rw [aim, canonical.targetExponent, significands, shiftRight_exact, Prod.mk.injEq]
  exact ⟨rfl, by omega⟩

/-- Rounding gives the canonical size of a number that has one. -/
theorem roundWithAccuracy_exact {side : Sign} {binary : Binary} (fine : Binary)
    (canonical : Canonical binary) (same : fine.value = binary.value)
    (lower : fine.exponent ≤ binary.exponent) :
    roundWithAccuracy Format.binary64 side fine.significand fine.exponent .exact =
      .finite side binary.significand binary.exponent canonical.positive := by
  have first := shiftToTargetExponent_exact canonical same lower
  have second := shiftToTargetExponent_exact canonical rfl (le_refl binary.exponent)
  unfold roundWithAccuracy
  rw [first]
  simp only [ExtendedMantissa.roundedMantissa, ExtendedMantissa.accuracy,
    Accuracy.roundToNearestEven, second]
  exact dif_neg canonical.positive.ne'

/-- Rounding gives the canonical size also where the exponent has to be lowered. -/
theorem round_exact {side : Sign} {binary : Binary} (other : Binary) (canonical : Canonical binary)
    (positive : 0 < other.significand) (same : other.value = binary.value) :
    UnpackedFloat.round Format.binary64 side other.significand other.exponent =
      .finite side binary.significand binary.exponent canonical.positive := by
  have aim := totalExponent_eq_of_value_eq positive canonical.positive same
  let exponent := other.exponent - (other.exponent - binary.exponent).toNat
  have lower : exponent ≤ other.exponent := by omega
  have significand : other.significand * 2 ^ (other.exponent - binary.exponent).toNat =
      (other.lowered exponent).significand := by
    simp only [lowered]
    congr 2
    omega
  unfold UnpackedFloat.round
  simp only [decreaseExponent, Nat.shiftLeft_eq, aim, canonical.targetExponent]
  rw [significand]
  exact roundWithAccuracy_exact (other.lowered exponent) canonical
    ((value_lowered lower).trans same) (by simp only [lowered]; omega)

/-- A product is exact when it is a binary64 number. -/
theorem mul_exact (first second : Binary) {product : Binary} (canonical : Canonical product)
    (firstPositive : 0 < first.significand) (secondPositive : 0 < second.significand)
    (same : first.value * second.value = product.value)
    (lower : first.exponent + second.exponent ≤ product.exponent) :
    UnpackedFloat.mul Format.binary64
        (.finite .positive first.significand first.exponent firstPositive)
        (.finite .positive second.significand second.exponent secondPositive) =
      .finite .positive product.significand product.exponent canonical.positive := by
  exact roundWithAccuracy_exact (first.product second) canonical
    ((value_product first second).trans same) lower

/-- The exponent of a long division is low enough for the quotient. -/
theorem quotient_exponent_le {dividend divisor quotient : Binary} (canonical : Canonical quotient)
    (dividendPositive : 0 < dividend.significand) (divisorPositive : 0 < divisor.significand)
    (same : dividend.value = quotient.value * divisor.value) :
    Format.binary64.targetExponent
        (totalExponent dividend.significand dividend.exponent -
          totalExponent divisor.significand divisor.exponent) ≤ quotient.exponent := by
  obtain ⟨dividendLower, -⟩ := value_bounds dividendPositive
  obtain ⟨-, divisorUpper⟩ := value_bounds divisorPositive
  obtain ⟨-, quotientUpper⟩ := value_bounds canonical.positive
  have positive := value_pos divisorPositive
  have product : quotient.value * divisor.value <
      2 ^ (totalExponent quotient.significand quotient.exponent +
        totalExponent divisor.significand divisor.exponent) := by
    rw [zpow_add₀ two_ne_zero]
    calc quotient.value * divisor.value
        < 2 ^ totalExponent quotient.significand quotient.exponent * divisor.value :=
          mul_lt_mul_of_pos_right quotientUpper positive
      _ < _ := mul_lt_mul_of_pos_left divisorUpper (by positivity)
  have position := (zpow_lt_zpow_iff_right₀ (one_lt_two (α := ℚ))).mp
    (dividendLower.trans_lt (same.trans_lt product))
  have aim := canonical.targetExponent
  rw [targetExponent_eq] at aim ⊢
  omega

/-- A quotient is exact when it is a binary64 number. -/
theorem div_exact (dividend divisor : Binary) {quotient : Binary} (canonical : Canonical quotient)
    (dividendPositive : 0 < dividend.significand) (divisorPositive : 0 < divisor.significand)
    (same : dividend.value = quotient.value * divisor.value) :
    UnpackedFloat.div Format.binary64
        (.finite .positive dividend.significand dividend.exponent dividendPositive)
        (.finite .positive divisor.significand divisor.exponent divisorPositive) =
      .finite .positive quotient.significand quotient.exponent canonical.positive := by
  let difference := dividend.exponent - divisor.exponent
  let aim := min difference (Format.binary64.targetExponent
    (totalExponent dividend.significand dividend.exponent -
      totalExponent divisor.significand divisor.exponent))
  have lower : aim ≤ quotient.exponent := (min_le_right _ _).trans
    (quotient_exponent_le canonical dividendPositive divisorPositive same)
  have room : aim ≤ difference := min_le_left _ _
  let fine := quotient.lowered aim
  -- The quotient lies on the grid that the division aims at, so nothing is left over.
  have long : dividend.significand * 2 ^ (difference - aim).toNat =
      fine.significand * divisor.significand := by
    have places : (dividend.exponent - (aim + divisor.exponent)).toNat =
        (difference - aim).toNat := by omega
    have values : (dividend.lowered (aim + divisor.exponent)).value =
        (fine.product divisor).value := by
      rw [value_lowered (by omega), value_product, value_lowered lower, same]
    have significands := significand_eq_of_value_eq values (le_refl _)
    simpa [lowered, product, fine, places] using significands
  have whole : dividend.significand * 2 ^ (difference - aim).toNat / divisor.significand =
      fine.significand := by
    rw [long, Nat.mul_div_cancel _ divisorPositive]
  have rest : dividend.significand * 2 ^ (difference - aim).toNat % divisor.significand = 0 := by
    rw [long, Nat.mul_mod_left]
  simp only [UnpackedFloat.div, divCore, Nat.shiftLeft_eq]
  change roundWithAccuracy Format.binary64 .positive
    (dividend.significand * 2 ^ (difference - aim).toNat / divisor.significand) aim
    (accuracyOfFraction (dividend.significand * 2 ^ (difference - aim).toNat % divisor.significand)
      divisor.significand) = _
  rw [whole, rest]
  exact roundWithAccuracy_exact fine canonical (value_lowered lower) lower

/-- A product that is a binary64 number is not rounded. -/
theorem mul_eq_of_value_eq {first second result : Float} (firstLasts : Lasts first)
    (secondLasts : Lasts second) (lasts : Lasts result)
    (same : (ofFloat first).value * (ofFloat second).value = (ofFloat result).value)
    (lower : (ofFloat first).exponent + (ofFloat second).exponent ≤ (ofFloat result).exponent) :
    first * second = result := by
  obtain ⟨-, firstPositive, firstUnpacked⟩ := unpack_of_lasts firstLasts
  obtain ⟨-, secondPositive, secondUnpacked⟩ := unpack_of_lasts secondLasts
  obtain ⟨canonical, -⟩ := unpack_of_lasts lasts
  refine eq_of_packed lasts ⟨canonical.positive, ?_⟩
  change Float.Model.pack (UnpackedFloat.mul Format.binary64 first.toModel.unpack
    second.toModel.unpack) = _
  rw [firstUnpacked, secondUnpacked,
    mul_exact _ _ canonical firstPositive secondPositive same lower]

/-- A quotient that is a binary64 number is not rounded. -/
theorem div_eq_of_value_eq {dividend divisor result : Float} (dividendLasts : Lasts dividend)
    (divisorLasts : Lasts divisor) (lasts : Lasts result)
    (same : (ofFloat dividend).value = (ofFloat result).value * (ofFloat divisor).value) :
    dividend / divisor = result := by
  obtain ⟨-, dividendPositive, dividendUnpacked⟩ := unpack_of_lasts dividendLasts
  obtain ⟨-, divisorPositive, divisorUnpacked⟩ := unpack_of_lasts divisorLasts
  obtain ⟨canonical, -⟩ := unpack_of_lasts lasts
  refine eq_of_packed lasts ⟨canonical.positive, ?_⟩
  change Float.Model.pack (UnpackedFloat.div Format.binary64 dividend.toModel.unpack
    divisor.toModel.unpack) = _
  rw [dividendUnpacked, divisorUnpacked,
    div_exact _ _ canonical dividendPositive divisorPositive same]

/-- A number has only one canonical size. -/
theorem eq_of_value_eq {first second : Binary} (firstCanonical : Canonical first)
    (secondCanonical : Canonical second) (same : first.value = second.value) : first = second := by
  have totals :=
    totalExponent_eq_of_value_eq firstCanonical.positive secondCanonical.positive same
  have exponents : first.exponent = second.exponent := by
    rw [← firstCanonical.targetExponent, ← secondCanonical.targetExponent, totals]
  have significands := significand_eq_of_value_eq same exponents.le
  rw [exponents, sub_self, Int.toNat_zero, pow_zero, mul_one] at significands
  cases first
  cases second
  simp_all

/-- A natural number that fits into a significand has a canonical size. -/
theorem canonical_lowered {number : Nat} (positive : 0 < number) (small : number < 2 ^ 53) :
    Canonical ((⟨number, 0⟩ : Binary).lowered (number.log2 - 52)) := by
  have bits : number.log2 < 53 := (Nat.log2_lt positive.ne').mpr small
  have places : ((0 : Int) - (number.log2 - 52)).toNat = 52 - number.log2 := by omega
  have lower : 2 ^ number.log2 ≤ number := Nat.log2_self_le positive.ne'
  have upper : number < 2 ^ (number.log2 + 1) := Nat.lt_log2_self
  have shift : 2 ^ number.log2 * 2 ^ (52 - number.log2) = leadingBit := by
    rw [← pow_add, Nat.add_sub_cancel' (by omega)]
    rfl
  simp only [lowered, places]
  refine ⟨by positivity, ?_, by simp only; omega, by simp only; omega, .inl ?_⟩
  · calc number * 2 ^ (52 - number.log2)
        < 2 ^ (number.log2 + 1) * 2 ^ (52 - number.log2) :=
          Nat.mul_lt_mul_of_pos_right upper (by positivity)
      _ = 2 * leadingBit := by rw [pow_succ', mul_assoc, shift]
  · rw [← shift]
    exact Nat.mul_le_mul_right _ lower

/-- A small natural number is packed without rounding. -/
theorem lasts_of_natural {number : Nat} {result : Float} (positive : 0 < number)
    (small : number < 2 ^ 53)
    (packed : result.toModel = Float.Model.pack
      (UnpackedFloat.normalize Format.binary64 (number : Int) 0 .positive)) :
    Lasts result ∧ (ofFloat result).value = number := by
  have canonical := canonical_lowered positive small
  have bits : number.log2 < 53 := (Nat.log2_lt positive.ne').mpr small
  let binary : Binary := (⟨number, 0⟩ : Binary).lowered (number.log2 - 52)
  have same : binary.value = (⟨number, 0⟩ : Binary).value := value_lowered (by simp only; omega)
  have sign : compare (number : Int) 0 = .gt := by
    rw [Int.compare_eq_gt]
    omega
  have exact : result.toModel = Float.Model.pack
      (.finite .positive binary.significand binary.exponent canonical.positive) := by
    rw [packed]
    unfold UnpackedFloat.normalize
    simp only [sign, Int.toNat_natCast]
    rw [round_exact ⟨number, 0⟩ canonical positive same.symm]
  obtain ⟨lasts, size⟩ := ofFloat_of_packed canonical exact
  refine ⟨lasts, ?_⟩
  rw [size, same]
  simp [value]

end Rhythm.Binary
