import Rhythm.Decimal.Shortest
import Rhythm.Proofs.Binary.Exact

/-
This file shows that a decimal number which equals a binary64 number denotes it, and hence that
the shortest decimal form of a number reads back. The main statements are `toFloat_eq_of_value_eq`
and `toFloat_shortest`.
-/

namespace Rhythm.Decimal

open Float.Model Float.Model.UnpackedFloat

/-- The number that a coefficient and an exponent stand for. -/
def value (decimal : Decimal) : ℚ :=
  decimal.coefficient * 10 ^ decimal.exponent

/-- Small natural numbers are binary64 numbers. -/
theorem toFloat_natural {number : Nat} (positive : 0 < number) (small : number < 2 ^ 53) :
    Lasts number.toUInt64.toFloat ∧
      (Binary.ofFloat number.toUInt64.toFloat).value = number := by
  have word : number.toUInt64.toNat = number := by
    rw [Nat.toUInt64_eq, UInt64.toNat_ofNat']
    exact Nat.mod_eq_of_lt (small.trans (by decide))
  apply Binary.lasts_of_natural positive small
  change Float.Model.pack (UnpackedFloat.normalize Format.binary64
    (number.toUInt64.toNat : Int) 0 .positive) = _
  rw [word]

/-- The powers of ten that are binary64 numbers are kept in a table. -/
def powerOfTen (power : Fin 23) : Float :=
  getElem Float.exactlyRepresentablePowersOfTen power.val power.isLt

/-- The table of powers of ten is exact. -/
theorem powersOfTen_exact : ∀ power : Fin 23, Lasts (powerOfTen power) ∧
    (Binary.ofFloat (powerOfTen power)).numerator =
      10 ^ power.val * (Binary.ofFloat (powerOfTen power)).denominator := by
  decide

/-- The table holds the powers of ten. -/
theorem value_powerOfTen (power : Fin 23) :
    (Binary.ofFloat (powerOfTen power)).value = 10 ^ power.val := by
  have exact := (powersOfTen_exact power).2
  generalize Binary.ofFloat _ = binary at exact ⊢
  have positive : (binary.denominator : ℚ) ≠ 0 := by
    simp [Binary.denominator]
  rw [Binary.value_eq_div, div_eq_iff positive]
  exact_mod_cast exact

/-- The coefficient of a decimal fraction of a positive number is positive. -/
theorem coefficient_pos {coefficient places : Nat} {number : Float} (lasts : Lasts number)
    (same : (coefficient : ℚ) = (Binary.ofFloat number).value * 10 ^ places) :
    0 < coefficient := by
  obtain ⟨canonical, -⟩ := Binary.unpack_of_lasts lasts
  have valuePositive := Binary.value_pos canonical.positive
  have product : (0 : ℚ) < coefficient := by
    rw [same]
    positivity
  exact_mod_cast product

/-- A natural number that is a binary64 number is read exactly. -/
theorem ofScientific_natural {coefficient : Nat} {number : Float} (lasts : Lasts number)
    (same : (coefficient : ℚ) = (Binary.ofFloat number).value) :
    Float.ofScientific coefficient false 0 = number := by
  obtain ⟨canonical, -⟩ := Binary.unpack_of_lasts lasts
  have positive : 0 < coefficient :=
    @coefficient_pos coefficient 0 number lasts (by rw [same, pow_zero, mul_one])
  unfold Float.ofScientific
  split
  case isTrue small =>
    -- A small coefficient is a number itself, and is then multiplied by one.
    obtain ⟨naturalLasts, naturalValue⟩ := toFloat_natural positive small.1
    obtain ⟨naturalCanonical, -⟩ := Binary.unpack_of_lasts naturalLasts
    have size : Binary.ofFloat coefficient.toUInt64.toFloat = Binary.ofFloat number :=
      Binary.eq_of_value_eq naturalCanonical canonical (naturalValue.trans same)
    have one := value_powerOfTen 0
    have lower : (Binary.ofFloat (powerOfTen 0)).exponent ≤ 0 := by decide
    refine Binary.mul_eq_of_value_eq naturalLasts (powersOfTen_exact 0).1 lasts ?_ ?_
    · rw [size]
      exact (congrArg _ one).trans (by simp)
    · rw [size]
      exact add_le_of_nonpos_right lower
  case isFalse large =>
    have one : (2 : ℚ) ^ (0 : Int) ≤ (Binary.ofFloat number).value := by
      rw [← same]
      exact_mod_cast positive
    have total := (zpow_lt_zpow_iff_right₀ (one_lt_two (α := ℚ))).mp
      (one.trans_lt (Binary.value_bounds canonical.positive).2)
    have aim := canonical.targetExponent
    rw [Binary.targetExponent_eq] at aim
    -- A large one gets 53 more bits first, so that rounding finds enough of them.
    let shifted : Binary :=
      ⟨coefficient <<< Format.binary64.mantissaBits, -(Format.binary64.mantissaBits : Int)⟩
    have exact : shifted.value * (⟨10 ^ (0 : Int).toNat, 0⟩ : Binary).value =
        (Binary.ofFloat number).value := by
      rw [← same]
      simp only [shifted, Binary.value, Nat.shiftLeft_eq, zpow_neg, zpow_natCast]
      push_cast
      field_simp
    have lower : shifted.exponent + 0 ≤ (Binary.ofFloat number).exponent := by
      rw [show shifted.exponent = -53 from rfl]
      omega
    refine Binary.eq_of_packed lasts ⟨canonical.positive, ?_⟩
    change Float.Model.pack (UnpackedFloat.ofScientific Format.binary64 coefficient 0) = _
    congr 1
    unfold UnpackedFloat.ofScientific
    rw [dif_neg positive.ne', if_neg (by decide), if_neg (by simp), if_pos (le_refl 0)]
    exact Binary.mul_exact shifted ⟨10 ^ (0 : Int).toNat, 0⟩ canonical _ _ exact lower

/-- A decimal fraction that is a binary64 number has few enough places. -/
theorem places_le {coefficient places : Nat} {number : Float} (lasts : Lasts number)
    (same : (coefficient : ℚ) = (Binary.ofFloat number).value * 10 ^ places) :
    places ≤ 1074 + coefficient.log2 := by
  obtain ⟨canonical, -⟩ := Binary.unpack_of_lasts lasts
  have least : (2 : ℚ) ^ (-1074 : Int) ≤ (Binary.ofFloat number).value := by
    have whole : (1 : ℚ) ≤ (Binary.ofFloat number).significand := by
      exact_mod_cast canonical.positive
    have scale : (2 : ℚ) ^ (-1074 : Int) ≤ 2 ^ (Binary.ofFloat number).exponent :=
      zpow_le_zpow_right₀ one_le_two canonical.least
    exact scale.trans (le_mul_of_one_le_left (by positivity) whole)
  have tens : (2 : ℚ) ^ (places : Int) ≤ 10 ^ places := by
    rw [zpow_natCast]
    exact pow_le_pow_left₀ (by norm_num) (by norm_num) places
  have upper : (coefficient : ℚ) < 2 ^ ((coefficient.log2 : Int) + 1) := by
    exact_mod_cast Nat.lt_log2_self
  have bound : (2 : ℚ) ^ ((-1074 : Int) + places) < 2 ^ ((coefficient.log2 : Int) + 1) := by
    calc (2 : ℚ) ^ ((-1074 : Int) + places)
        = 2 ^ (-1074 : Int) * 2 ^ (places : Int) := zpow_add₀ two_ne_zero _ _
      _ ≤ (Binary.ofFloat number).value * 10 ^ places :=
          mul_le_mul least tens (by positivity) (Binary.value_pos canonical.positive).le
      _ = coefficient := same.symm
      _ < 2 ^ ((coefficient.log2 : Int) + 1) := upper
  have exponents := (zpow_lt_zpow_iff_right₀ (one_lt_two (α := ℚ))).mp bound
  omega

/-- A decimal fraction that is a binary64 number is read exactly. -/
theorem ofScientific_fraction {coefficient places : Nat} {number : Float} (lasts : Lasts number)
    (some : 0 < places)
    (same : (coefficient : ℚ) = (Binary.ofFloat number).value * 10 ^ places) :
    Float.ofScientific coefficient true places = number := by
  obtain ⟨canonical, -⟩ := Binary.unpack_of_lasts lasts
  have positive := coefficient_pos lasts same
  have room := places_le lasts same
  unfold Float.ofScientific
  split
  case isTrue small =>
    obtain ⟨naturalLasts, naturalValue⟩ := toFloat_natural positive small.1
    have power := value_powerOfTen ⟨places, Nat.lt_succ_of_le small.2⟩
    refine Binary.div_eq_of_value_eq naturalLasts
      (powersOfTen_exact ⟨places, Nat.lt_succ_of_le small.2⟩).1 lasts ?_
    rw [naturalValue, same]
    exact congrArg _ power.symm
  case isFalse large =>
    refine Binary.eq_of_packed lasts ⟨canonical.positive, ?_⟩
    change Float.Model.pack (UnpackedFloat.ofScientific Format.binary64 coefficient
      (Int.negOfNat places)) = _
    congr 1
    have minus : Int.negOfNat places = -(places : Int) := Int.negOfNat_eq
    have exponentBits : (2 : Int) ^ Format.binary64.exponentBits = 2048 := by decide
    unfold UnpackedFloat.ofScientific
    rw [minus, dif_neg positive.ne', exponentBits, if_neg (by omega), if_neg (by omega),
      if_neg (by omega)]
    apply Binary.div_exact ⟨coefficient, 0⟩ ⟨10 ^ (- -(places : Int)).toNat, 0⟩ canonical
    simp [Binary.value, same]

/-- A decimal number that is a binary64 number denotes it. -/
theorem toFloat_eq_of_value_eq {decimal : Decimal} {number : Float} (lasts : Lasts number)
    (same : decimal.value = (Binary.ofFloat number).value) : decimal.toFloat = number := by
  obtain ⟨coefficient, exponent⟩ := decimal
  unfold value at same
  unfold toFloat
  dsimp only at same ⊢
  split
  case isTrue part =>
    obtain ⟨places, rfl⟩ : ∃ places : Nat, exponent = -(places : Int) :=
      ⟨exponent.natAbs, by omega⟩
    rw [show (-(places : Int)).natAbs = places by omega]
    apply ofScientific_fraction lasts (by omega)
    rw [← same, zpow_neg, zpow_natCast]
    field_simp
  case isFalse whole =>
    obtain ⟨zeros, rfl⟩ : ∃ zeros : Nat, exponent = zeros := ⟨exponent.toNat, by omega⟩
    apply ofScientific_natural lasts
    rw [← same, zpow_natCast, Int.toNat_natCast, Nat.pow_eq]
    push_cast
    rfl

/-- The exact decimal expansion changes nothing. -/
theorem value_toDecimal (binary : Binary) : binary.toDecimal.value = binary.value := by
  obtain ⟨significand, exponent⟩ := binary
  unfold Binary.toDecimal
  dsimp only
  split
  case isTrue part =>
    obtain ⟨places, rfl⟩ : ∃ places : Nat, exponent = -(places : Int) :=
      ⟨exponent.natAbs, by omega⟩
    have tens : (10 : ℚ) ^ places = 5 ^ places * 2 ^ places := by
      rw [← mul_pow]
      norm_num
    simp only [value, Binary.value, Int.natAbs_neg, Int.natAbs_natCast, Nat.pow_eq, zpow_neg,
      zpow_natCast, tens]
    push_cast
    field_simp
  case isFalse whole =>
    obtain ⟨zeros, rfl⟩ : ∃ zeros : Nat, exponent = zeros := ⟨exponent.toNat, by omega⟩
    simp [value, Binary.value, Binary.numerator]

/-- The shortest decimal form of a number denotes it. -/
theorem toFloat_shortest {tie : Tie} {number : Float} (lasts : Lasts number) :
    (shortest tie number).toFloat = number := by
  unfold shortest
  simp only
  cases search : (List.range mostDigits).findSome? fun places : Nat =>
    nearest? tie number ((Binary.ofFloat number).decade - places) with
  | none => exact toFloat_eq_of_value_eq lasts (value_toDecimal _)
  | some decimal =>
      obtain ⟨places, -, found⟩ := List.exists_of_findSome?_eq_some search
      have back := readsBack_of_nearest? found
      exact Float.toBits_inj.mp (beq_iff_eq.mp back)

end Rhythm.Decimal
