import Rhythm.Proofs.Binary.Sized

/-
This file compares the percentage that binary64 arithmetic gives for a part of a whole with the
exact one. The main statements are `percentage_eq_floor`, that it is the exact one rounded half up
when that is not a half, and `percentage_half`, which names the halves that are rounded down.
-/

namespace Rhythm.Binary

/-- The percentage of a part in a whole, in whole numbers. -/
def percentage (part whole : Nat) : Nat :=
  (ofFloat (Float.ofNat part / Float.ofNat whole * 100)).round

/-- Half a percent over these percentages is rounded down. -/
def loweredHalves : List Nat :=
  [14, 28, 56, 57]

section Rounding

variable {number : Nat}

/-- The nearest natural number is found by adding a half. -/
theorem round_eq_floor (binary : Binary) : binary.round = ⌊binary.value + 1 / 2⌋₊ := by
  have positive : (binary.denominator : ℚ) ≠ 0 := by
    exact_mod_cast (Nat.pow_pos (by decide) : 0 < binary.denominator).ne'
  have scaled : binary.value + 1 / 2 =
      ((2 * binary.numerator + binary.denominator : Nat) : ℚ) / (2 * binary.denominator : Nat) := by
    rw [value_eq_div]
    push_cast
    field_simp
  rw [scaled, Nat.floor_div_eq_div, round]

/-- A size up to a natural number is rounded to one that is no greater. -/
theorem round_le {binary : Binary} {whole : Nat} (bound : binary.value ≤ whole) :
    binary.round ≤ whole := by
  rw [round_eq_floor, ← Nat.lt_succ_iff, Nat.floor_lt' (Nat.succ_ne_zero whole)]
  push_cast
  linarith

/-- A word that is not zero is rounded to at least one. -/
theorem one_le_value (positive : 0 < number) (bound : number < 2 ^ 64) :
    1 ≤ (ofFloat (Float.ofNat number)).value :=
  roundsTo_one.mono (rounds_ofNat (natCast_le_most bound)).rounds (by exact_mod_cast positive)

end Rounding

section Share

variable {part whole other total : Nat}

/-- The share of a part in a whole is at most one, and is rounded again when it is turned into a
percentage. -/
theorem rounds_share (order : part ≤ whole) (positive : 0 < whole) (bound : whole < 2 ^ 64) :
    Rounds ((ofFloat (Float.ofNat part)).value / (ofFloat (Float.ofNat whole)).value)
      (Float.ofNat part / Float.ofNat whole) ∧
    (ofFloat (Float.ofNat part / Float.ofNat whole)).value ≤ 1 ∧
    Rounds ((ofFloat (Float.ofNat part / Float.ofNat whole)).value * 100)
      (Float.ofNat part / Float.ofNat whole * 100) := by
  obtain ⟨hundredLasts, hundredValue⟩ := value_ofNat (by decide : 0 < 100) (by decide)
  have partRounds := rounds_ofNat (natCast_le_most (order.trans_lt bound))
  have wholeRounds := rounds_ofNat (natCast_le_most bound)
  have least := one_le_value positive bound
  have below := partRounds.mono wholeRounds (by exact_mod_cast order)
  have wholeLasts : Lasts (Float.ofNat whole) := by
    refine wholeRounds.sized.resolve_left fun zero => ?_
    rw [zero, value_zero] at least
    exact absurd least (by norm_num)
  have fraction : (ofFloat (Float.ofNat part)).value / (ofFloat (Float.ofNat whole)).value ≤ 1 :=
    div_le_one_of_le₀ below (by linarith)
  have small : (1 : ℚ) ≤ most.value := by exact_mod_cast natCast_le_most (by decide : 1 < 2 ^ 64)
  have quotient := rounds_div partRounds.sized wholeLasts (fraction.trans small)
  have quotientLe := quotient.rounds.mono roundsTo_one fraction
  have scaledLe : (ofFloat (Float.ofNat part / Float.ofNat whole)).value *
      (ofFloat (Float.ofNat 100)).value ≤ (100 : Nat) := by
    rw [hundredValue]
    push_cast
    linarith
  have scaled := rounds_mul quotient.sized hundredLasts
    (scaledLe.trans (natCast_le_most (by decide)))
  rw [hundredValue, Nat.cast_ofNat] at scaled
  exact ⟨quotient, quotientLe, scaled⟩

/-- The percentage of a part in a whole is at most one hundred. -/
theorem percentage_le (order : part ≤ whole) (positive : 0 < whole) (bound : whole < 2 ^ 64) :
    percentage part whole ≤ 100 := by
  obtain ⟨-, share, scaled⟩ := rounds_share order positive bound
  have top := scaled.rounds.mono (roundsTo_natural (by decide : 100 < 2 ^ 53))
    (by push_cast; linarith)
  exact round_le top

/-- The whole is one hundred percent of itself. -/
theorem percentage_self (positive : 0 < whole) (bound : whole < 2 ^ 64) :
    percentage whole whole = 100 := by
  obtain ⟨quotient, -, scaled⟩ := rounds_share le_rfl positive bound
  have least := one_le_value positive bound
  have share : (ofFloat (Float.ofNat whole / Float.ofNat whole)).value = 1 := by
    rw [div_self (by linarith)] at quotient
    exact quotient.rounds.unique roundsTo_one
  have hundred : RoundsTo 100 100 := by
    exact_mod_cast roundsTo_natural (by decide : 100 < 2 ^ 53)
  rw [share, one_mul] at scaled
  rw [percentage, round_eq_floor, scaled.rounds.unique hundred]
  norm_num

/-- The percentage is found by rounding three times. -/
theorem exists_percentage (order : part ≤ whole) (positive : 0 < whole) (small : whole < 2 ^ 53) :
    ∃ share percent, RoundsTo (part / whole) share ∧ RoundsTo (share * 100) percent ∧
      percentage part whole = ⌊percent + 1 / 2⌋₊ := by
  obtain ⟨quotient, -, scaled⟩ := rounds_share order positive (small.trans (by decide))
  rw [value_natural small, value_natural (order.trans_lt small)] at quotient
  exact ⟨_, _, quotient.rounds, scaled.rounds, round_eq_floor _⟩

/-- The percentage only depends on the exact share. -/
theorem percentage_congr (order : part ≤ whole) (positive : 0 < whole) (small : whole < 2 ^ 53)
    (otherOrder : other ≤ total) (otherPositive : 0 < total) (otherSmall : total < 2 ^ 53)
    (same : (part : ℚ) / whole = other / total) :
    percentage part whole = percentage other total := by
  obtain ⟨share, percent, shareRounds, percentRounds, found⟩ :=
    exists_percentage order positive small
  obtain ⟨otherShare, otherPercent, otherShareRounds, otherPercentRounds, otherFound⟩ :=
    exists_percentage otherOrder otherPositive otherSmall
  rw [same] at shareRounds
  rw [shareRounds.unique otherShareRounds] at percentRounds
  rw [found, otherFound, percentRounds.unique otherPercentRounds]

/-- Before the last rounding the percentage is almost exact. -/
theorem exists_near_percentage (order : part ≤ whole) (positive : 0 < whole)
    (small : whole < 2 ^ 53) :
    ∃ percent : ℚ, 0 ≤ percent ∧ percentage part whole = ⌊percent + 1 / 2⌋₊ ∧
      |percent - 100 * part / whole| < 2 ^ (-45 : Int) := by
  obtain ⟨share, percent, shareRounds, percentRounds, found⟩ :=
    exists_percentage order positive small
  have scale : (0 : ℚ) < whole := by exact_mod_cast positive
  have fraction : (part : ℚ) / whole ≤ 1 :=
    div_le_one_of_le₀ (by exact_mod_cast order) scale.le
  have nonneg : 0 ≤ (part : ℚ) / whole := by positivity
  have shareError := abs_le.mp (shareRounds.error nonneg)
  have shareNonneg : 0 ≤ share := roundsTo_zero.mono shareRounds nonneg
  have percentError := abs_le.mp (percentRounds.error (by positivity))
  refine ⟨percent, roundsTo_zero.mono percentRounds (by positivity), found, ?_⟩
  rw [mul_div_assoc]
  have tiny : (2 : ℚ) ^ (-1075 : Int) ≤ 2 ^ (-60 : Int) :=
    zpow_le_zpow_right₀ one_le_two (by decide)
  generalize (2 : ℚ) ^ (-1075 : Int) = least at shareError percentError tiny
  norm_num at shareError percentError tiny ⊢
  rw [abs_lt]
  constructor <;> linarith

/-- The percentage is off by hardly more than a half. -/
theorem percentage_error (order : part ≤ whole) (positive : 0 < whole) (small : whole < 2 ^ 53) :
    |(percentage part whole : ℚ) - 100 * part / whole| ≤ 1 / 2 + 2 ^ (-45 : Int) := by
  obtain ⟨percent, nonneg, found, near⟩ := exists_near_percentage order positive small
  obtain ⟨lower, upper⟩ := abs_lt.mp near
  have floor := Nat.floor_le (by linarith : 0 ≤ percent + 1 / 2)
  have ceiling := Nat.lt_floor_add_one (percent + 1 / 2)
  rw [found, abs_le]
  constructor <;> linarith

/-- A percentage that keeps away from all halves is rounded to the nearest one. -/
theorem percentage_eq_floor (order : part ≤ whole) (positive : 0 < whole) (small : whole < 2 ^ 53)
    (apart : ∀ lower : Nat, 2 ^ (-45 : Int) ≤ |(100 * part / whole : ℚ) - (lower + 1 / 2)|) :
    percentage part whole = ⌊(100 * part / whole + 1 / 2 : ℚ)⌋₊ := by
  obtain ⟨percent, nonneg, found, near⟩ := exists_near_percentage order positive small
  have exactNonneg : (0 : ℚ) ≤ 100 * part / whole := by positivity
  generalize (100 * part / whole : ℚ) = exact at apart near exactNonneg ⊢
  generalize (2 : ℚ) ^ (-45 : Int) = room at apart near
  obtain ⟨lowest, highest⟩ := abs_lt.mp near
  have floor := Nat.floor_le (by linarith : 0 ≤ exact + 1 / 2)
  have ceiling := Nat.lt_floor_add_one (exact + 1 / 2)
  rw [found, Nat.floor_eq_iff (by linarith)]
  generalize ⌊exact + 1 / 2⌋₊ = nearest at floor ceiling ⊢
  constructor
  · cases nearest with
    | zero =>
        rw [Nat.cast_zero]
        linarith
    | succ lower =>
        have gap := apart lower
        rw [Nat.cast_succ] at floor ⊢
        rw [abs_of_nonneg (by linarith)] at gap
        linarith
  · have gap := apart nearest
    rw [abs_of_nonpos (by linarith)] at gap
    linarith

/-- In wholes of up to 44 bits, a percentage that is not a half keeps away from all halves. -/
theorem apart_of_few (positive : 0 < whole) (few : whole ≤ 2 ^ 44)
    (unequal : ∀ lower, 200 * part ≠ (2 * lower + 1) * whole) (lower : Nat) :
    (2 : ℚ) ^ (-45 : Int) ≤ |(100 * part / whole : ℚ) - (lower + 1 / 2)| := by
  have doubled : (0 : ℚ) < (2 * whole : Nat) := by exact_mod_cast Nat.mul_pos two_pos positive
  have bits : ((2 * whole : Nat) : ℚ) ≤ 2 ^ (45 : Int) := by
    exact_mod_cast (by omega : 2 * whole ≤ 2 ^ 45)
  have different : (200 * part : ℤ) - (2 * lower + 1) * whole ≠ 0 :=
    sub_ne_zero.mpr (by exact_mod_cast unequal lower)
  have distance : (1 : ℚ) ≤ |(200 * part - (2 * lower + 1) * whole : ℚ)| := by
    exact_mod_cast Int.one_le_abs different
  have scaled : (100 * part / whole : ℚ) - (lower + 1 / 2) =
      (200 * part - (2 * lower + 1) * whole) / (2 * whole : Nat) := by
    have scale : (whole : ℚ) ≠ 0 := by exact_mod_cast positive.ne'
    push_cast
    field_simp
    ring
  rw [zpow_neg, ← one_div, scaled, abs_div, abs_of_pos doubled]
  exact div_le_div₀ (by positivity) distance doubled bits

/-- A percentage that is a half is followed by the next whole one. -/
theorem floor_half (positive : 0 < whole) {percent : Nat}
    (half : 200 * part = (2 * percent + 1) * whole) :
    ⌊(100 * part / whole + 1 / 2 : ℚ)⌋₊ = percent + 1 := by
  have scale : (whole : ℚ) ≠ 0 := by exact_mod_cast positive.ne'
  have half : (200 * part : ℚ) = (2 * percent + 1) * whole := by exact_mod_cast half
  have exact : (100 * part / whole + 1 / 2 : ℚ) = (percent + 1 : Nat) := by
    field_simp
    push_cast
    linarith
  rw [exact, Nat.floor_natCast]

/-- A half is rounded up, apart from four of them. -/
theorem percentage_half (order : part ≤ whole) (positive : 0 < whole) (small : whole < 2 ^ 53)
    {percent : Nat} (half : 200 * part = (2 * percent + 1) * whole) :
    percentage part whole = if percent ∈ loweredHalves then percent else percent + 1 := by
  have few : percent < 100 := by
    by_contra many
    have beyond : 201 * whole ≤ (2 * percent + 1) * whole := Nat.mul_le_mul_right _ (by omega)
    omega
  have same : (part : ℚ) / whole = (2 * percent + 1 : Nat) / (200 : Nat) := by
    have scale : (whole : ℚ) ≠ 0 := by exact_mod_cast positive.ne'
    have half : (200 * part : ℚ) = (2 * percent + 1) * whole := by exact_mod_cast half
    rw [div_eq_div_iff scale (by norm_num)]
    push_cast
    linarith
  have table : ∀ percent < 100, percentage (2 * percent + 1) 200 =
      if percent ∈ loweredHalves then percent else percent + 1 := by
    decide +kernel
  rw [percentage_congr order positive small (by omega) (by decide) (by decide) same]
  exact table percent few

end Share

end Rhythm.Binary
