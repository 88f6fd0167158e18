import Rhythm.Proofs.Binary.Approximates

/-
This file says which exact numbers are rounded to positive finite ones. The main statements are
`lasts_mul_iff`, that a product lasts if and only if the exact one is in range, and `lasts_div_iff`.
-/

namespace Rhythm.Binary

/-- An exact number is in range when it is above half of the least positive number and below the
middle between the greatest finite number and the limit. -/
structure InRange (exact : ℚ) : Prop where
  above : 2 ^ (-1075 : Int) < exact
  below : exact < limit - 2 ^ (970 : Int)

section Thresholds

variable {exact rounded : ℚ}

/-- A number that is above half of the least positive one is not lost. -/
theorem RoundsTo.pos_iff (rounds : RoundsTo exact rounded) :
    0 < rounded ↔ 2 ^ (-1075 : Int) < exact := by
  obtain ⟨exponent, whole, least, lower, -, nearest, rfl⟩ := rounds
  have scale : (0 : ℚ) < 2 ^ exponent := by positivity
  rw [mul_pos_iff_of_pos_right scale, Nat.cast_pos]
  obtain rfl | long := lower
  · have half : (2 : ℚ) ^ (-1075 : Int) < exact ↔ 1 < 2 * (exact / 2 ^ (-1074 : Int)) := by
      rw [← mul_div_assoc, one_lt_div scale, ← div_lt_iff₀' two_pos, div_eq_mul_inv,
        ← zpow_sub_one₀ two_ne_zero]
      rfl
    rw [half]
    constructor
    · intro positive
      obtain one | more : whole = 1 ∨ 2 ≤ whole := by omega
      · have strict := (nearest.tie (by omega)).1
        rw [one, Nat.cast_one] at strict
        linarith
      · have lower := nearest.lower
        have more : (2 : ℚ) ≤ whole := by exact_mod_cast more
        linarith
    · intro more
      by_contra empty
      have upper := nearest.upper
      rw [Nat.eq_zero_of_not_pos empty, Nat.cast_zero] at upper
      linarith
  · have filled := nearest.two_pow_le 52 long
    have above : (2 : ℚ) ^ (-1075 : Int) < 2 ^ (exponent + 52) :=
      zpow_lt_zpow_right₀ one_lt_two (by omega)
    exact iff_of_true (lt_of_lt_of_le (by decide) filled) (above.trans_le long)

theorem limit_eq : limit = 2 ^ 53 * 2 ^ (971 : Int) := by
  rw [limit, ← zpow_natCast, ← zpow_add₀ two_ne_zero]
  rfl

/-- The middle between the greatest finite number and the limit, on the grid of these. -/
theorem middle_eq : limit - 2 ^ (970 : Int) = (2 ^ 53 - 1 / 2) * 2 ^ (971 : Int) := by
  rw [limit_eq, show (971 : Int) = 970 + 1 from rfl, zpow_add_one₀ two_ne_zero]
  ring

/-- The greatest power of two below the limit is far below that middle. -/
theorem two_pow_lt_middle : 2 ^ (1023 : Int) < limit - 2 ^ (970 : Int) := by
  rw [lt_sub_iff_add_lt]
  calc (2 : ℚ) ^ (1023 : Int) + 2 ^ (970 : Int) < 2 ^ (1023 : Int) + 2 ^ (1023 : Int) :=
        add_lt_add_right (zpow_lt_zpow_right₀ one_lt_two (by decide)) _
    _ = limit := by
        rw [← mul_two, ← zpow_add_one₀ two_ne_zero]
        rfl

/-- That middle is rounded up. -/
theorem roundsTo_limit : RoundsTo (limit - 2 ^ (970 : Int)) limit := by
  have scale : (0 : ℚ) < 2 ^ (971 : Int) := by positivity
  have lower : (2 : ℚ) ^ ((971 : Int) + 52) = 2 ^ 52 * 2 ^ (971 : Int) := by
    rw [zpow_add₀ two_ne_zero, mul_comm]
    rfl
  refine ⟨971, 2 ^ 53, by decide, .inr ?_, sub_lt_self _ (by positivity), ?_, ?_⟩
  · rw [lower, middle_eq]
    exact mul_le_mul_of_nonneg_right (by norm_num) scale.le
  · rw [middle_eq, mul_div_cancel_right₀ _ scale.ne']
    exact ⟨by norm_num, by norm_num, fun odd => absurd odd (by decide)⟩
  · rw [limit_eq, Nat.cast_pow, Nat.cast_ofNat]

/-- A number that is below the middle between the greatest finite number and the limit stays
finite. -/
theorem RoundsTo.lt_limit_iff (rounds : RoundsTo exact rounded) :
    rounded < limit ↔ exact < limit - 2 ^ (970 : Int) := by
  constructor
  · intro finite
    by_contra beyond
    exact absurd (roundsTo_limit.mono rounds (not_lt.mp beyond)) (not_le.mpr finite)
  · intro below
    obtain ⟨exponent, whole, -, lower, upper, nearest, rfl⟩ := rounds
    have scale : (0 : ℚ) < 2 ^ exponent := by positivity
    have small : exact < limit := below.trans (sub_lt_self _ (by positivity))
    have room : exponent ≤ 971 := by
      obtain least | long := lower
      · omega
      · have powers := (zpow_lt_zpow_iff_right₀ (one_lt_two (α := ℚ))).mp (long.trans_lt small)
        omega
    obtain lowerGrid | rfl := room.lt_or_eq
    · have carried : (whole : ℚ) ≤ 2 ^ 53 := by
        exact_mod_cast nearest.le_two_pow 53 upper.le
      calc (whole : ℚ) * 2 ^ exponent ≤ 2 ^ (53 : Int) * 2 ^ exponent :=
            mul_le_mul_of_nonneg_right (by exact_mod_cast carried) scale.le
        _ = 2 ^ (53 + exponent) := (zpow_add₀ two_ne_zero _ _).symm
        _ < limit := zpow_lt_zpow_right₀ one_lt_two (by omega)
    · rw [middle_eq, ← div_lt_iff₀ scale] at below
      rw [limit_eq]
      refine mul_lt_mul_of_pos_right ?_ scale
      linarith [nearest.lower]

end Thresholds

section Numbers

variable {exact : ℚ} {first second number : Float}

/-- The numbers that last lie between zero and the limit. -/
theorem lasts_iff_place : Lasts number ↔
    number.toModel.unpack ≠ .notANumber ∧ 0 < place number ∧ place number < limit := by
  rw [Lasts, lt_iff_place, isFinite_iff, place_zero]
  have zero : (0 : Float).toModel.unpack ≠ .notANumber := nofun
  have positive := limit_pos
  constructor
  · rintro ⟨⟨-, defined, above⟩, -, -, below⟩
    exact ⟨defined, above, below⟩
  · rintro ⟨defined, above, below⟩
    exact ⟨⟨zero, defined, above⟩, defined, by linarith, below⟩

/-- A positive exact number is rounded on its own side, and to infinity beyond the limit. -/
theorem Approximates.exists_roundsTo (near : Approximates exact number) (positive : 0 < exact) :
    ∃ rounded, RoundsTo exact rounded ∧ place number = min rounded limit := by
  obtain ⟨-, rounded, ⟨side, nonneg, rounds⟩, found⟩ := near
  cases side with
  | negative => exact absurd nonneg (not_le.mpr (neg_lt_zero.mpr positive))
  | positive =>
      refine ⟨rounded, rounds, ?_⟩
      rw [found, max_eq_right]
      have size : 0 ≤ rounded := rounds.nonneg
      have top := limit_pos
      exact le_min (by linarith) (by linarith)

/-- A number that approximates a positive exact one lasts if and only if this is in range. -/
theorem Approximates.lasts_iff (near : Approximates exact number) (positive : 0 < exact) :
    Lasts number ↔ InRange exact := by
  obtain ⟨rounded, rounds, found⟩ := near.exists_roundsTo positive
  rw [lasts_iff_place, found, lt_min_iff, min_lt_iff, rounds.pos_iff, rounds.lt_limit_iff]
  constructor
  · rintro ⟨-, ⟨above, -⟩, below | beyond⟩
    · exact ⟨above, below⟩
    · exact absurd beyond (lt_irrefl _)
  · rintro ⟨above, below⟩
    exact ⟨near.defined, ⟨above, limit_pos⟩, .inl below⟩

/-- A number that approximates a positive exact one and lasts is the rounded one. -/
theorem Approximates.roundsTo (near : Approximates exact number) (positive : 0 < exact)
    (lasts : Lasts number) : RoundsTo exact (ofFloat number).value := by
  obtain ⟨rounded, rounds, found⟩ := near.exists_roundsTo positive
  obtain ⟨-, -, below⟩ := lasts_iff_place.mp lasts
  rw [place_of_lasts lasts] at found below
  rw [found] at below
  have same : (ofFloat number).value = rounded := by
    rw [found, min_eq_left ((min_lt_iff.mp below).resolve_right (lt_irrefl _)).le]
  rwa [same]

theorem value_pos_of_lasts (lasts : Lasts number) : 0 < (ofFloat number).value :=
  value_pos (unpack_of_lasts lasts).1.positive

/-- The product of two numbers that last approximates the exact one. -/
theorem approximates_mul_of_lasts (firstLasts : Lasts first) (secondLasts : Lasts second) :
    Approximates ((ofFloat first).value * (ofFloat second).value) (first * second) := by
  rw [← place_of_lasts firstLasts, ← place_of_lasts secondLasts]
  exact approximates_mul firstLasts.2 secondLasts

/-- The quotient of two numbers that last approximates the exact one. -/
theorem approximates_div_of_lasts (firstLasts : Lasts first) (secondLasts : Lasts second) :
    Approximates ((ofFloat first).value / (ofFloat second).value) (first / second) := by
  rw [← place_of_lasts firstLasts, ← place_of_lasts secondLasts]
  exact approximates_div firstLasts.2 secondLasts

/-- A product lasts if and only if the exact one is in range. -/
theorem lasts_mul_iff (firstLasts : Lasts first) (secondLasts : Lasts second) :
    Lasts (first * second) ↔ InRange ((ofFloat first).value * (ofFloat second).value) :=
  (approximates_mul_of_lasts firstLasts secondLasts).lasts_iff
    (mul_pos (value_pos_of_lasts firstLasts) (value_pos_of_lasts secondLasts))

/-- A finite product lasts unless the exact one is too small. -/
theorem lasts_mul_or_le (firstLasts : Lasts first) (secondLasts : Lasts second)
    (finite : (first * second).isFinite = true) : Lasts (first * second) ∨
      (ofFloat first).value * (ofFloat second).value ≤ 2 ^ (-1075 : Int) := by
  have positive := mul_pos (value_pos_of_lasts firstLasts) (value_pos_of_lasts secondLasts)
  obtain ⟨rounded, rounds, found⟩ :=
    (approximates_mul_of_lasts firstLasts secondLasts).exists_roundsTo positive
  obtain ⟨-, -, small⟩ := isFinite_iff.mp finite
  rw [found] at small
  have below := rounds.lt_limit_iff.mp ((min_lt_iff.mp small).resolve_right (lt_irrefl _))
  obtain above | tiny := lt_or_ge ((2 : ℚ) ^ (-1075 : Int))
    ((ofFloat first).value * (ofFloat second).value)
  · exact .inl ((lasts_mul_iff firstLasts secondLasts).mpr ⟨above, below⟩)
  · exact .inr tiny

/-- A quotient lasts if and only if the exact one is in range. -/
theorem lasts_div_iff (firstLasts : Lasts first) (secondLasts : Lasts second) :
    Lasts (first / second) ↔ InRange ((ofFloat first).value / (ofFloat second).value) :=
  (approximates_div_of_lasts firstLasts secondLasts).lasts_iff
    (div_pos (value_pos_of_lasts firstLasts) (value_pos_of_lasts secondLasts))

/-- A quotient that lasts is the rounded one. -/
theorem roundsTo_div (firstLasts : Lasts first) (secondLasts : Lasts second)
    (lasts : Lasts (first / second)) :
    RoundsTo ((ofFloat first).value / (ofFloat second).value) (ofFloat (first / second)).value :=
  (approximates_div_of_lasts firstLasts secondLasts).roundsTo
    (div_pos (value_pos_of_lasts firstLasts) (value_pos_of_lasts secondLasts)) lasts

/-- The numbers that last reach from the least positive one to the greatest finite one. -/
theorem Canonical.value_bounds {binary : Binary} (canonical : Canonical binary) :
    2 ^ (-1074 : Int) ≤ binary.value ∧ binary.value ≤ limit - 2 ^ (971 : Int) := by
  obtain ⟨positive, below, least, greatest, -⟩ := canonical
  have lower : (1 : ℚ) ≤ binary.significand := by exact_mod_cast positive
  have upper : (binary.significand : ℚ) ≤ 2 ^ 53 - 1 := by
    have natural : binary.significand + 1 ≤ 2 ^ 53 := below
    have rational : (binary.significand : ℚ) + 1 ≤ 2 ^ 53 := by exact_mod_cast natural
    linarith
  constructor
  · calc (2 : ℚ) ^ (-1074 : Int) ≤ 2 ^ binary.exponent :=
          zpow_le_zpow_right₀ one_le_two least
      _ ≤ binary.value := le_mul_of_one_le_left (by positivity) lower
  · calc binary.value ≤ (2 ^ 53 - 1) * 2 ^ (971 : Int) := by
          unfold value
          gcongr
          exact one_le_two
      _ = limit - 2 ^ (971 : Int) := by
          rw [limit_eq]
          ring

/-- A number that lasts stays in range when it is made smaller by less than a half. -/
theorem inRange_mul (lasts : Lasts number) {factor : ℚ} (lower : 1 / 2 < factor)
    (upper : factor ≤ 1) : InRange ((ofFloat number).value * factor) := by
  obtain ⟨least, greatest⟩ := (unpack_of_lasts lasts).1.value_bounds
  have positive := value_pos_of_lasts lasts
  constructor
  · calc (2 : ℚ) ^ (-1075 : Int) = 2 ^ (-1074 : Int) * (1 / 2) := by
          rw [show (-1075 : Int) = -1074 - 1 from rfl, zpow_sub_one₀ two_ne_zero, one_div]
      _ ≤ (ofFloat number).value * (1 / 2) := by gcongr
      _ < (ofFloat number).value * factor := mul_lt_mul_of_pos_left lower positive
  · calc (ofFloat number).value * factor ≤ (ofFloat number).value :=
          mul_le_of_le_one_right positive.le upper
      _ ≤ limit - 2 ^ (971 : Int) := greatest
      _ < limit - 2 ^ (970 : Int) :=
          sub_lt_sub_left (zpow_lt_zpow_right₀ one_lt_two (by decide)) _

end Numbers

section Powers

variable {power : Int} {exact : ℚ}

/-- A power of two that a word can hold with a leading bit. -/
def twoPow (power : Int) : Binary :=
  ⟨leadingBit, power - 52⟩

theorem value_twoPow (power : Int) : (twoPow power).value = 2 ^ power := by
  have leading : (leadingBit : ℚ) = 2 ^ (52 : Int) := by norm_num [leadingBit]
  rw [value, twoPow, leading, ← zpow_add₀ two_ne_zero, add_sub_cancel]

theorem canonical_twoPow (least : -1022 ≤ power) (greatest : power ≤ 1023) :
    Canonical (twoPow power) :=
  ⟨(by decide : 0 < leadingBit), (by decide : leadingBit < 2 * leadingBit),
    by simp only [twoPow]; omega, by simp only [twoPow]; omega, .inl le_rfl⟩

/-- A power of two is rounded to itself. -/
theorem roundsTo_twoPow (least : -1022 ≤ power) (greatest : power ≤ 1023) :
    RoundsTo (2 ^ power) (2 ^ power) := by
  rw [← value_twoPow]
  exact (canonical_twoPow least greatest).roundsTo

/-- A number that is rounded to a power of two is closer to it than the numbers next to it. -/
theorem RoundsTo.near_twoPow (rounds : RoundsTo exact (2 ^ power)) (least : -1022 ≤ power) :
    |exact - 2 ^ power| ≤ 2 ^ (power - 53) := by
  obtain ⟨exponent, whole, -, lower, -, nearest, same⟩ := rounds
  have scale : (0 : ℚ) < 2 ^ exponent := by positivity
  have fine : exponent ≤ power - 52 := by
    obtain rfl | long := lower
    · omega
    · have filled : (2 : ℚ) ^ 52 ≤ whole := by exact_mod_cast nearest.two_pow_le 52 long
      have powers : (2 : ℚ) ^ (52 + exponent) ≤ 2 ^ power := by
        rw [zpow_add₀ two_ne_zero, same]
        exact mul_le_mul_of_nonneg_right filled scale.le
      have order := (zpow_le_zpow_iff_right₀ (one_lt_two (α := ℚ))).mp powers
      omega
  calc |exact - 2 ^ power| = |whole * 2 ^ exponent - exact| := by rw [same, abs_sub_comm]
    _ ≤ 2 ^ exponent / 2 := nearest.error
    _ = 2 ^ (exponent - 1) := by rw [zpow_sub_one₀ two_ne_zero, div_eq_mul_inv]
    _ ≤ 2 ^ (power - 53) := zpow_le_zpow_right₀ one_le_two (by omega)

end Powers

end Rhythm.Binary
