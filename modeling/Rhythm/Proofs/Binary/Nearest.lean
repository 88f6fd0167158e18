import Rhythm.Proofs.Binary.Rounding

/-
This file shows that binary64 rounding takes an exact number to a nearest one that a word can hold,
and so keeps numbers in order. The main statements are `RoundsTo.mono` and
`roundsTo_roundWithAccuracy`.
-/

namespace Rhythm.Binary

open Float.Model Float.Model.UnpackedFloat

section Nearest

/-- A natural number is nearest to a number when it is at most a half away. Only an even one is
nearest when it is just a half away. -/
structure Nearest (number : ℚ) (whole : Nat) : Prop where
  lower : (2 * whole : ℚ) ≤ 2 * number + 1
  upper : 2 * number ≤ (2 * whole : ℚ) + 1
  tie : whole % 2 = 1 → (2 * whole : ℚ) < 2 * number + 1 ∧ 2 * number < (2 * whole : ℚ) + 1

variable {first second number : ℚ} {below above whole : Nat}

theorem nearest_natCast (whole : Nat) : Nearest whole whole :=
  ⟨by linarith, by linarith, fun _ => ⟨by linarith, by linarith⟩⟩

/-- Nearest numbers are in the order of the exact ones. -/
theorem Nearest.mono (firstNearest : Nearest first below) (secondNearest : Nearest second above)
    (order : first ≤ second) : below ≤ above := by
  by_contra reversed
  have next : above + 1 ≤ below := by omega
  have gap : (above : ℚ) + 1 ≤ below := by exact_mod_cast next
  have lower := firstNearest.lower
  have upper := secondNearest.upper
  -- The two exact numbers can only meet half way between neighbours, and one of these is odd.
  have neighbours : (below : ℚ) = above + 1 := by linarith
  have successor : below = above + 1 := by exact_mod_cast neighbours
  obtain odd | odd : below % 2 = 1 ∨ above % 2 = 1 := by omega
  · have strict := (firstNearest.tie odd).1
    linarith
  · have strict := (secondNearest.tie odd).2
    linarith

theorem Nearest.le_of_le (nearest : Nearest number whole) (bound : number ≤ above) :
    whole ≤ above :=
  nearest.mono (nearest_natCast above) bound

theorem Nearest.le_of_ge (nearest : Nearest number whole) (bound : (below : ℚ) ≤ number) :
    below ≤ whole :=
  (nearest_natCast below).mono nearest bound

end Nearest

section Shift

/-- The number of halves in an extended significand. -/
def halves (extended : ExtendedMantissa) : Nat :=
  2 * extended.mantissa + extended.roundBit.toNat

/-- An extended significand keeps a number when it holds all its halves, and knows whether anything
is left. -/
def Keeps (extended : ExtendedMantissa) (number : ℚ) : Prop :=
  if extended.stickyBit then (halves extended : ℚ) < 2 * number ∧ 2 * number < halves extended + 1
  else 2 * number = halves extended

variable {extended : ExtendedMantissa} {number : ℚ}

/-- A shift by one place halves the number that is kept. -/
theorem Keeps.shiftRightOne (keeps : Keeps extended number) :
    Keeps extended.shiftRightOne (number / 2) := by
  obtain ⟨significand, half, rest⟩ := extended
  have whole : halves (⟨significand, half, rest⟩ : ExtendedMantissa).shiftRightOne =
      significand := by
    simp only [halves, ExtendedMantissa.shiftRightOne]
    obtain even | odd := Nat.mod_two_eq_zero_or_one significand
    · simp [even]
      omega
    · simp [odd]
      omega
  rw [Keeps, whole]
  cases half <;> cases rest <;>
    simp only [Keeps, halves, ExtendedMantissa.shiftRightOne, Bool.or_self, Bool.or_true,
      Bool.or_false, Bool.toNat_true, Bool.toNat_false, Bool.false_eq_true, if_true, if_false,
      Nat.mod_two_bne_zero, Nat.cast_add, Nat.cast_mul, Nat.cast_ofNat, Nat.cast_one,
      Nat.cast_zero] at keeps ⊢
  · linarith
  · exact ⟨by linarith, by linarith⟩
  · exact ⟨by linarith, by linarith⟩
  · exact ⟨by linarith, by linarith⟩

theorem Keeps.shiftRight (keeps : Keeps extended number) (places : Nat) :
    Keeps (extended >>> places) (number / 2 ^ places) := by
  change Keeps (places.repeat ExtendedMantissa.shiftRightOne extended) _
  induction places with
  | zero => simpa [Nat.repeat] using keeps
  | succ places inductionHypothesis =>
      rw [Nat.repeat, pow_succ, ← div_div]
      exact inductionHypothesis.shiftRightOne

/-- The halves are the whole part of twice the number. -/
theorem Keeps.halves_bounds (keeps : Keeps extended number) :
    (halves extended : ℚ) ≤ 2 * number ∧ 2 * number < halves extended + 1 := by
  unfold Keeps at keeps
  split at keeps
  · exact ⟨keeps.1.le, keeps.2⟩
  · exact ⟨keeps.ge, by linarith⟩

/-- The significand itself is the whole part of the number. -/
theorem Keeps.bounds (keeps : Keeps extended number) :
    (extended.mantissa : ℚ) ≤ number ∧ number < extended.mantissa + 1 := by
  obtain ⟨lower, upper⟩ := keeps.halves_bounds
  have least : (2 * extended.mantissa : ℚ) ≤ halves extended := by
    exact_mod_cast Nat.le_add_right _ _
  have most : (halves extended : ℚ) ≤ 2 * extended.mantissa + 1 := by
    exact_mod_cast Nat.add_le_add_left (Bool.toNat_le _) _
  exact ⟨by linarith, by linarith⟩

/-- The rounded significand is nearest to the number that is kept. -/
theorem Keeps.nearest (keeps : Keeps extended number) :
    Nearest number extended.roundedMantissa := by
  obtain ⟨significand, half, rest⟩ := extended
  cases half <;> cases rest <;>
    simp only [Keeps, halves, ExtendedMantissa.roundedMantissa, ExtendedMantissa.accuracy,
      Accuracy.roundToNearestEven, Bool.toNat_true, Bool.toNat_false, Bool.false_eq_true, if_true,
      if_false, Nat.cast_add, Nat.cast_mul, Nat.cast_ofNat, Nat.cast_one,
      Nat.cast_zero] at keeps ⊢
  case false.false =>
    have exact : number = significand := by linarith
    rw [exact]
    exact nearest_natCast significand
  case false.true => exact ⟨by linarith, by linarith, fun _ => ⟨by linarith, by linarith⟩⟩
  case true.false =>
    obtain even | odd := Nat.mod_two_eq_zero_or_one significand
    · rw [even, Nat.add_zero]
      exact ⟨by linarith, by linarith, fun odd => by omega⟩
    · rw [odd]
      refine ⟨?_, ?_, fun other => by omega⟩ <;> push_cast <;> linarith
  case true.true =>
    refine ⟨?_, ?_, fun _ => ⟨?_, ?_⟩⟩ <;> push_cast <;> linarith

end Shift

section Grid

/-- A number is rounded to a multiple of the power of two that leaves it 53 bits, or of the least
power that a word can hold. -/
def RoundsTo (exact rounded : ℚ) : Prop :=
  ∃ (exponent : Int) (whole : Nat), -1074 ≤ exponent ∧
    (exponent = -1074 ∨ 2 ^ (exponent + 52) ≤ exact) ∧ exact < 2 ^ (exponent + 53) ∧
    Nearest (exact / 2 ^ exponent) whole ∧ rounded = whole * 2 ^ exponent

variable {first second exact rounded other below above bound : ℚ} {exponent : Int} {whole : Nat}

/-- A power of two on the grid bounds what a number below it is rounded to. -/
theorem Nearest.le_two_pow (nearest : Nearest (exact / 2 ^ exponent) whole) (places : Nat)
    (bound : exact ≤ 2 ^ (exponent + places)) : whole ≤ 2 ^ places := by
  rw [zpow_add₀ two_ne_zero, mul_comm (2 ^ exponent), zpow_natCast] at bound
  refine nearest.le_of_le ?_
  rw [div_le_iff₀ (by positivity)]
  exact_mod_cast bound

/-- A power of two on the grid bounds what a number above it is rounded to. -/
theorem Nearest.two_pow_le (nearest : Nearest (exact / 2 ^ exponent) whole) (places : Nat)
    (bound : 2 ^ (exponent + places) ≤ exact) : 2 ^ places ≤ whole := by
  rw [zpow_add₀ two_ne_zero, mul_comm (2 ^ exponent), zpow_natCast] at bound
  refine nearest.le_of_ge ?_
  rw [le_div_iff₀ (by positivity)]
  exact_mod_cast bound

/-- Rounding keeps numbers in order. -/
theorem RoundsTo.mono (firstRounds : RoundsTo first below) (secondRounds : RoundsTo second above)
    (order : first ≤ second) : below ≤ above := by
  obtain ⟨fine, firstWhole, fineLeast, fineLower, fineUpper, firstNearest, rfl⟩ := firstRounds
  obtain ⟨coarse, secondWhole, coarseLeast, coarseLower, coarseUpper, secondNearest, rfl⟩ :=
    secondRounds
  have grids : fine ≤ coarse := by
    obtain least | lower := fineLower
    · exact least.trans_le coarseLeast
    · have powers := (zpow_lt_zpow_iff_right₀ (one_lt_two (α := ℚ))).mp
        (lower.trans_lt (order.trans_lt coarseUpper))
      omega
  obtain same | finer := grids.eq_or_lt
  · subst same
    have wholes : firstWhole ≤ secondWhole := by
      refine firstNearest.mono secondNearest ?_
      gcongr
    have cast : (firstWhole : ℚ) ≤ secondWhole := by exact_mod_cast wholes
    gcongr
  · -- A power of two lies between the results, since the grids are different.
    have small : (firstWhole : ℚ) ≤ 2 ^ 53 := by
      exact_mod_cast firstNearest.le_two_pow 53 fineUpper.le
    have large : (2 ^ 52 : ℚ) ≤ secondWhole := by
      exact_mod_cast secondNearest.two_pow_le 52 (coarseLower.resolve_left (by omega))
    calc (firstWhole * 2 ^ fine : ℚ) ≤ 2 ^ 53 * 2 ^ fine := by gcongr
      _ = 2 ^ 52 * 2 ^ (fine + 1) := by rw [zpow_add_one₀ two_ne_zero]; ring
      _ ≤ 2 ^ 52 * 2 ^ coarse := by
          gcongr
          · exact one_le_two
          · exact finer
      _ ≤ secondWhole * 2 ^ coarse := by gcongr

/-- A number is rounded to one number only. -/
theorem RoundsTo.unique (rounds : RoundsTo exact rounded) (otherRounds : RoundsTo exact other) :
    rounded = other :=
  le_antisymm (rounds.mono otherRounds le_rfl) (otherRounds.mono rounds le_rfl)

/-- The nearest number on a grid is at most half a step away. -/
theorem Nearest.error (nearest : Nearest (exact / 2 ^ exponent) whole) :
    |whole * 2 ^ exponent - exact| ≤ 2 ^ exponent / 2 := by
  have scale : (0 : ℚ) < 2 ^ exponent := by positivity
  have near : |(whole : ℚ) - exact / 2 ^ exponent| ≤ 1 / 2 := by
    rw [abs_le]
    constructor
    · linarith [nearest.upper]
    · linarith [nearest.lower]
  calc |(whole : ℚ) * 2 ^ exponent - exact|
      = |(whole : ℚ) - exact / 2 ^ exponent| * 2 ^ exponent := by
        rw [← abs_of_pos scale, ← abs_mul, abs_of_pos scale, sub_mul, div_mul_cancel₀ _ scale.ne']
    _ ≤ 1 / 2 * 2 ^ exponent := mul_le_mul_of_nonneg_right near scale.le
    _ = 2 ^ exponent / 2 := by ring

/-- Rounding moves a number by no more than half of the last of 53 bits, or half of the least
number that there is. -/
theorem RoundsTo.error (rounds : RoundsTo exact rounded) (nonneg : 0 ≤ exact) :
    |rounded - exact| ≤ exact * 2 ^ (-53 : Int) + 2 ^ (-1075 : Int) := by
  obtain ⟨exponent, whole, -, lower, -, nearest, rfl⟩ := rounds
  have least : (0 : ℚ) < 2 ^ (-1075 : Int) := by positivity
  have grid : (2 : ℚ) ^ exponent / 2 ≤ exact * 2 ^ (-53 : Int) + 2 ^ (-1075 : Int) := by
    obtain rfl | long := lower
    · have half : (2 : ℚ) ^ (-1074 : Int) / 2 = 2 ^ (-1075 : Int) := by
        rw [div_eq_iff two_ne_zero, ← zpow_add_one₀ two_ne_zero]
        rfl
      rw [half]
      exact le_add_of_nonneg_left (by positivity)
    · have half : (2 : ℚ) ^ exponent / 2 = 2 ^ (exponent + 52) * 2 ^ (-53 : Int) := by
        rw [div_eq_iff two_ne_zero, ← zpow_add₀ two_ne_zero, ← zpow_add_one₀ two_ne_zero]
        congr 1
        ring
      rw [half]
      exact le_add_of_le_of_nonneg (mul_le_mul_of_nonneg_right long (by positivity)) least.le
  exact nearest.error.trans grid

end Grid

section Packed

/-- What rounding gives, as the significand and the exponent of an unpacked number, may be zero or
need a larger exponent than a word can hold. -/
structure Rounded (binary : Binary) : Prop where
  below : binary.significand < 2 * leadingBit
  least : -1074 ≤ binary.exponent
  normal : leadingBit ≤ binary.significand ∨ binary.exponent = -1074

/-- A positive size is unpacked to itself, and a size without a significand is a zero. -/
def unpackedSize (side : Sign) (binary : Binary) : UnpackedFloat :=
  if positive : 0 < binary.significand then
    .finite side binary.significand binary.exponent positive
  else .zero side

variable {binary : Binary} {exact rounded : ℚ} {significand whole : Nat} {exponent : Int}
  {accuracy : Accuracy}

/-- A canonical size is rounded to itself. -/
theorem Canonical.roundsTo (canonical : Canonical binary) : RoundsTo binary.value binary.value := by
  have aim := canonical.targetExponent
  obtain ⟨lower, upper⟩ := value_bounds canonical.positive
  rw [targetExponent_eq] at aim
  refine ⟨binary.exponent, binary.significand, canonical.least, ?_, ?_, ?_, rfl⟩
  · by_cases least : binary.exponent = -1074
    · exact Or.inl least
    · exact Or.inr ((zpow_le_zpow_right₀ one_le_two (by omega)).trans lower)
  · exact upper.trans_le (zpow_le_zpow_right₀ one_le_two (by omega))
  · have scale : (2 : ℚ) ^ binary.exponent ≠ 0 := by positivity
    rw [value, mul_div_cancel_right₀ _ scale]
    exact nearest_natCast _

/-- The significand is shortened once more after rounding if it has become too long. -/
theorem exists_rounded_shift (whole : Nat) (exponent : Int) (most : whole ≤ 2 * leadingBit)
    (least : -1074 ≤ exponent) (normal : leadingBit ≤ whole ∨ exponent = -1074) :
    ∃ binary, Rounded binary ∧ binary.value = whole * 2 ^ exponent ∧
      shiftToTargetExponent Format.binary64 whole exponent .exact =
        (⟨binary.significand, false, false⟩, binary.exponent) := by
  simp only [shiftToTargetExponent, shiftToExponent, ExtendedMantissa.ofMantissaAndAccuracy]
  rw [targetExponent_eq, totalExponent]
  obtain carried | short := most.eq_or_lt
  · have bits : whole.log2 = 53 := by
      rw [carried]
      decide
    have places : (max ((whole.log2 : Int) + 1 + exponent - 53) (-1074) - exponent).toNat = 1 := by
      omega
    have halved : whole = leadingBit * 2 ^ 1 := by omega
    refine ⟨⟨leadingBit, exponent + 1⟩, ⟨(by decide : leadingBit < 2 * leadingBit),
      by simp only; omega, .inl le_rfl⟩, ?_, ?_⟩
    · rw [value, halved, zpow_add₀ two_ne_zero]
      push_cast
      ring
    · rw [places, halved, shiftRight_exact]
      rfl
  · have bits : whole.log2 < 53 := by
      by_cases empty : whole = 0
      · rw [empty]
        decide
      · exact (Nat.log2_lt empty).mpr short
    have places : (max ((whole.log2 : Int) + 1 + exponent - 53) (-1074) - exponent).toNat = 0 := by
      omega
    refine ⟨⟨whole, exponent⟩, ⟨short, least, normal⟩, rfl, ?_⟩
    rw [places, Nat.cast_zero, add_zero]
    rfl

/-- The exponent that rounding aims at leaves a number at most 53 bits, and all of them unless it is
the least one. -/
theorem grid_bounds {grid : Int} (aim : max ((significand.log2 : Int) + 1 + exponent - 53) (-1074) =
      grid) (lower : exponent ≤ grid) (floor : significand ≤ exact / 2 ^ exponent)
    (ceiling : exact / 2 ^ exponent < significand + 1) :
    (grid = -1074 ∨ 2 ^ (grid + 52) ≤ exact) ∧ exact < 2 ^ (grid + 53) := by
  have whole : exact / 2 ^ exponent * 2 ^ exponent = exact := div_mul_cancel₀ _ (by positivity)
  constructor
  · by_cases least : grid = -1074
    · exact Or.inl least
    · have filled : significand ≠ 0 := by
        rintro rfl
        rw [Nat.log2_zero] at aim
        omega
      have bits : (2 : ℚ) ^ significand.log2 ≤ significand := by
        exact_mod_cast Nat.log2_self_le filled
      refine Or.inr ?_
      calc (2 : ℚ) ^ (grid + 52) ≤ 2 ^ ((significand.log2 : Int) + exponent) :=
            zpow_le_zpow_right₀ one_le_two (by omega)
        _ = 2 ^ significand.log2 * 2 ^ exponent := by
            rw [zpow_add₀ two_ne_zero, zpow_natCast]
        _ ≤ exact / 2 ^ exponent * 2 ^ exponent := by
            gcongr
            exact bits.trans floor
        _ = exact := whole
  · have bits : ((significand : ℚ) + 1) ≤ 2 ^ (significand.log2 + 1) := by
      exact_mod_cast Nat.lt_log2_self
    calc exact = exact / 2 ^ exponent * 2 ^ exponent := whole.symm
      _ < 2 ^ (significand.log2 + 1) * 2 ^ exponent := by
          gcongr
          exact ceiling.trans_le bits
      _ = (2 : ℚ) ^ ((significand.log2 + 1 : Nat) + exponent) := by
          rw [zpow_add₀ two_ne_zero, zpow_natCast]
      _ ≤ 2 ^ (grid + 53) := zpow_le_zpow_right₀ one_le_two (by omega)

/-- Rounding takes the number that is kept to the nearest one on its grid. -/
theorem roundsTo_roundWithAccuracy (side : Sign)
    (keeps : Keeps (ExtendedMantissa.ofMantissaAndAccuracy significand accuracy)
      (exact / 2 ^ exponent))
    (lower : exponent ≤ Format.binary64.targetExponent (totalExponent significand exponent)) :
    ∃ binary, Rounded binary ∧ RoundsTo exact binary.value ∧
      roundWithAccuracy Format.binary64 side significand exponent accuracy =
        unpackedSize side binary := by
  rw [targetExponent_eq, totalExponent] at lower
  obtain ⟨places, aim⟩ := Int.le.dest lower
  obtain ⟨floor, ceiling⟩ := keeps.bounds
  rw [mantissa_ofMantissaAndAccuracy] at floor ceiling
  have shift : shiftToTargetExponent Format.binary64 significand exponent accuracy =
      (ExtendedMantissa.ofMantissaAndAccuracy significand accuracy >>> places,
        exponent + places) := by
    rw [shiftToTargetExponent, targetExponent_eq, totalExponent, ← aim, shiftToExponent]
    simp
  generalize grid : exponent + (places : Int) = target at aim shift
  obtain ⟨normal, upper⟩ := grid_bounds aim.symm (by omega) floor ceiling
  have nearest := (keeps.shiftRight places).nearest
  rw [div_div, ← zpow_natCast, ← zpow_add₀ two_ne_zero, grid] at nearest
  have most := nearest.le_two_pow 53 upper.le
  have filled := normal.symm.imp_left (nearest.two_pow_le 52)
  obtain ⟨binary, rounded, same, again⟩ := exists_rounded_shift _ target most (by omega) filled
  refine ⟨binary, rounded, ⟨target, _, by omega, normal, upper, nearest, same⟩, ?_⟩
  unfold roundWithAccuracy unpackedSize
  rw [shift]
  dsimp only
  rw [again]
  dsimp only
  by_cases empty : binary.significand = 0
  · rw [dif_pos empty, dif_neg (by omega)]
  · rw [dif_neg empty, dif_pos (by omega)]

end Packed

end Rhythm.Binary
