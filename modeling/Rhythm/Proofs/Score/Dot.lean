import Rhythm.Element
import Rhythm.Proofs.Binary.Range

/-
This file says which elements are dotted. The main statement is `Element.dot_exact`, that these are
the elements that last exactly one and a half times a power of two, although the test divides with
rounding.
-/

namespace Rhythm

open Binary Float.Model

section Powers

variable {number : Float}

/-- A number is found to be a power of two if and only if it is one that has a leading bit. -/
theorem isPowerOfTwo_iff : isPowerOfTwo number = true ↔ Lasts number ∧
    ∃ power : Int, -1022 ≤ power ∧ power ≤ 1023 ∧ (ofFloat number).value = 2 ^ power := by
  simp only [isPowerOfTwo, Bool.and_eq_true, beq_iff_eq, decide_eq_true_iff]
  constructor
  · rintro ⟨⟨empty, above⟩, below⟩
    have own : field number % fieldCount = field number :=
      Nat.mod_eq_of_lt (Nat.lt_of_succ_lt below)
    have size : ofFloat number = twoPow (field number - 1023) := by
      rw [ofFloat_of_normal (by omega), own, empty, twoPow, Nat.add_zero]
      congr 1
      omega
    have plus : sign number = .positive := if_pos (Nat.lt_of_succ_lt below)
    have positive : 0 < (twoPow (field number - 1023)).significand :=
      (by decide : 0 < leadingBit)
    refine ⟨lasts_of_unpack (unpack_eq_finite_iff.mpr ⟨by omega, size, plus⟩ :
      number.toModel.unpack = .finite .positive _ _ positive), field number - 1023, by omega, ?_,
      by rw [size, value_twoPow]⟩
    simp only [fieldCount] at below
    omega
  · rintro ⟨lasts, power, least, greatest, same⟩
    obtain ⟨canonical, positive, unpacked⟩ := unpack_of_lasts lasts
    obtain ⟨-, -, plus⟩ := unpack_eq_finite_iff.mp unpacked
    have size : ofFloat number = twoPow power :=
      eq_of_value_eq canonical (canonical_twoPow least greatest) (same.trans (value_twoPow _).symm)
    have below : field number < fieldCount := by
      by_contra above
      rw [sign, if_neg above] at plus
      cases plus
    have own : field number % fieldCount = field number := Nat.mod_eq_of_lt below
    have bits : fraction number < leadingBit := Nat.mod_lt _ (by decide)
    -- Without a leading bit a number is too small for any of these powers.
    by_cases subnormal : field number % fieldCount = 0
    · rw [ofFloat_of_subnormal subnormal, twoPow, Binary.mk.injEq] at size
      omega
    · rw [ofFloat_of_normal subnormal, own, twoPow, Binary.mk.injEq] at size
      simp only [fieldCount] at below ⊢
      exact ⟨⟨by omega, by omega⟩, by omega⟩

end Powers

section Dots

variable {beats : Float} {power : Int}

/-- No power of two is one and a half times another one. -/
theorem twoPow_ne_dotted (first second : Int) : (2 : ℚ) ^ first ≠ 3 / 2 * 2 ^ second := by
  intro same
  have scale : (0 : ℚ) < 2 ^ second := by positivity
  have lower : (2 : ℚ) ^ second < 2 ^ first := by
    rw [same]
    linarith
  have upper : (2 : ℚ) ^ first < 2 ^ (second + 1) := by
    rw [same, zpow_add_one₀ two_ne_zero]
    linarith
  have above := (zpow_lt_zpow_iff_right₀ (one_lt_two (α := ℚ))).mp lower
  have below := (zpow_lt_zpow_iff_right₀ (one_lt_two (α := ℚ))).mp upper
  omega

/-- A number of at least a power of two is a multiple of the step that follows it. -/
theorem sub_le_exponent {binary : Binary} (canonical : Canonical binary)
    (above : 2 ^ power ≤ binary.value) : power - 52 ≤ binary.exponent := by
  have below : binary.value < 2 ^ (53 + binary.exponent) := by
    rw [zpow_add₀ two_ne_zero]
    exact mul_lt_mul_of_pos_right (by exact_mod_cast canonical.below) (by positivity)
  have order := (zpow_lt_zpow_iff_right₀ (one_lt_two (α := ℚ))).mp (above.trans_lt below)
  omega

/-- A number that is less than a step away from a dotted power of two is that power, since both are
multiples of the step. -/
theorem value_eq_of_near (lasts : Lasts beats)
    (near : |(ofFloat beats).value - 3 / 2 * 2 ^ power| < 2 ^ (power - 52)) :
    (ofFloat beats).value = 3 / 2 * 2 ^ power := by
  obtain ⟨canonical, -⟩ := unpack_of_lasts lasts
  have scale : (0 : ℚ) < 2 ^ (power - 52) := by positivity
  have step : (2 : ℚ) ^ power = 2 ^ 52 * 2 ^ (power - 52) := by
    rw [← zpow_natCast, ← zpow_add₀ two_ne_zero, Nat.cast_ofNat, add_sub_cancel]
  have fine : power - 52 ≤ (ofFloat beats).exponent := by
    refine sub_le_exponent canonical ?_
    have lower := (abs_lt.mp near).1
    rw [step] at lower ⊢
    linarith
  have dotted : (3 / 2 : ℚ) * 2 ^ power = (3 * 2 ^ 51 : Nat) * 2 ^ (power - 52) := by
    rw [step]
    push_cast
    ring
  rw [← value_lowered fine, dotted, value] at near ⊢
  change |(_ : ℚ) * 2 ^ (power - 52) - _| < _ at near
  change (_ : ℚ) * 2 ^ (power - 52) = _
  rw [← sub_mul, abs_mul, abs_of_pos scale, mul_lt_iff_lt_one_left scale] at near
  have same : ((ofFloat beats).lowered (power - 52)).significand = 3 * 2 ^ 51 := by
    have integer : |(((ofFloat beats).lowered (power - 52)).significand : ℤ) - (3 * 2 ^ 51 : Nat)| <
        1 := by exact_mod_cast near
    have zero := Int.abs_lt_one_iff.mp integer
    omega
  rw [same]

/-- One and a half is a number, with the last of its bits far below one. -/
theorem lasts_dot : Lasts 1.5 ∧ (ofFloat 1.5).value = 3 / 2 ∧ (ofFloat 1.5).exponent = -52 := by
  have size : ofFloat 1.5 = ⟨0x18000000000000, -52⟩ := by decide
  refine ⟨by decide, ?_, by rw [size]⟩
  rw [size, value]
  norm_num

/-- The beats of an element that are divided by a dot are rounded. -/
theorem lasts_div_dot (lasts : Lasts beats) : Lasts (beats / 1.5) ∧
    RoundsTo ((ofFloat beats).value * (2 / 3)) (ofFloat (beats / 1.5)).value := by
  obtain ⟨dotLasts, dot, -⟩ := lasts_dot
  have factor : (ofFloat beats).value / (ofFloat 1.5).value = (ofFloat beats).value * (2 / 3) := by
    rw [dot, div_eq_mul_inv, inv_div]
  have quotient : Lasts (beats / 1.5) := by
    rw [lasts_div_iff lasts dotLasts, factor]
    exact inRange_mul lasts (by norm_num) (by norm_num)
  exact ⟨quotient, factor ▸ roundsTo_div lasts dotLasts quotient⟩

/-- The quotient by a dot is a power of two if and only if the dividend is a dotted one. -/
theorem value_div_dot_iff (lasts : Lasts beats) (least : -1022 ≤ power) (greatest : power ≤ 1023) :
    (ofFloat (beats / 1.5)).value = 2 ^ power ↔ (ofFloat beats).value = 3 / 2 * 2 ^ power := by
  obtain ⟨-, rounds⟩ := lasts_div_dot lasts
  constructor
  · intro same
    rw [same] at rounds
    have near := rounds.near_twoPow least
    have scale : (0 : ℚ) < 2 ^ (power - 53) := by positivity
    have step : (2 : ℚ) ^ (power - 52) = 2 * 2 ^ (power - 53) := by
      rw [← zpow_one_add₀ two_ne_zero]
      congr 1
      omega
    refine value_eq_of_near lasts ?_
    rw [abs_le] at near
    rw [step, abs_lt]
    constructor <;> linarith
  · intro same
    have exact : (ofFloat beats).value * (2 / 3) = 2 ^ power := by
      rw [same]
      ring
    rw [exact] at rounds
    exact rounds.unique (roundsTo_twoPow least greatest)

theorem isDotted_iff (lasts : Lasts beats) : isDotted beats = true ↔
    ∃ power : Int, -1022 ≤ power ∧ power ≤ 1023 ∧ (ofFloat beats).value = 3 / 2 * 2 ^ power := by
  rw [isDotted, isPowerOfTwo_iff, and_iff_right (lasts_div_dot lasts).1]
  refine exists_congr fun power => and_congr_right fun least => and_congr_right fun greatest => ?_
  exact value_div_dot_iff lasts least greatest

/-- The power of two is left when its dot is taken away, and the dot can be put back. -/
theorem withoutDot_of_dotted (lasts : Lasts beats) (least : -1022 ≤ power)
    (greatest : power ≤ 1023) (dotted : (ofFloat beats).value = 3 / 2 * 2 ^ power) :
    Lasts (withoutDot beats) ∧ (ofFloat (withoutDot beats)).value = 2 ^ power ∧
      1.5 * withoutDot beats = beats := by
  obtain ⟨dotLasts, dot, places⟩ := lasts_dot
  obtain ⟨quotient, -⟩ := lasts_div_dot lasts
  have plain := (value_div_dot_iff lasts least greatest).mpr dotted
  rw [withoutDot, if_pos ((isDotted_iff lasts).mpr ⟨power, least, greatest, dotted⟩)]
  refine ⟨quotient, plain, mul_eq_of_value_eq dotLasts quotient lasts ?_ ?_⟩
  · rw [dot, plain, dotted]
  · have size : ofFloat (beats / 1.5) = twoPow power :=
      eq_of_value_eq (unpack_of_lasts quotient).1 (canonical_twoPow least greatest)
        (plain.trans (value_twoPow power).symm)
    have scale : (0 : ℚ) < 2 ^ power := by positivity
    have step := @sub_le_exponent power _ (unpack_of_lasts lasts).1 (by rw [dotted]; linarith)
    rw [places, size, twoPow]
    simp only
    omega

/-- What is left without a dot is not dotted. -/
theorem isDotted_withoutDot (lasts : Lasts beats) : isDotted (withoutDot beats) = false := by
  cases found : isDotted beats with
  | false => rwa [withoutDot, found]
  | true =>
      obtain ⟨power, least, greatest, dotted⟩ := (isDotted_iff lasts).mp found
      obtain ⟨plainLasts, plain, -⟩ := withoutDot_of_dotted lasts least greatest dotted
      by_contra again
      obtain ⟨other, -, -, same⟩ := (isDotted_iff plainLasts).mp ((Bool.not_eq_false _).mp again)
      exact twoPow_ne_dotted power other (plain.symm.trans same)

end Dots

section Elements

variable {element : Element}

/-- An element is dotted if and only if its beats are exactly one and a half times a power of two
that has a leading bit. Without the dot exactly that power is left, and the dot can be put back.
Any other element is left as it is. An element that lasts as long as one without its dot is not
dotted. -/
theorem Element.dot_exact (lasts : Lasts element.beats) :
    (isDotted element.beats = true ↔ ∃ power : Int, -1022 ≤ power ∧ power ≤ 1023 ∧
      (ofFloat element.beats).value = 3 / 2 * 2 ^ power) ∧
    (∀ power : Int, -1022 ≤ power → power ≤ 1023 →
      (ofFloat element.beats).value = 3 / 2 * 2 ^ power →
        Lasts (withoutDot element.beats) ∧ (ofFloat (withoutDot element.beats)).value = 2 ^ power ∧
          1.5 * withoutDot element.beats = element.beats) ∧
    (isDotted element.beats = false → withoutDot element.beats = element.beats) ∧
    ∀ other : Element, other.beats = withoutDot element.beats →
      isDotted other.beats = false ∧ withoutDot other.beats = other.beats := by
  refine ⟨isDotted_iff lasts, fun power => withoutDot_of_dotted lasts, fun plain => ?_,
    fun other same => ?_⟩
  · rw [withoutDot, plain]
    rfl
  · have plain := isDotted_withoutDot lasts
    rw [← same] at plain
    refine ⟨plain, ?_⟩
    rw [withoutDot, plain]
    rfl

/-- A rest of the least dotted number of beats. -/
def leastDotted : Element :=
  .single (.rest ⟨⟨Float.ofBits 0x0018000000000000, by decide⟩⟩)

/-- The least dotted number of beats leaves the least number that has a leading bit. -/
theorem Element.dot_exact_leastDotted : Lasts leastDotted.beats ∧
    isDotted leastDotted.beats = true ∧
    (ofFloat (withoutDot leastDotted.beats)).value = 2 ^ (-1022 : Int) ∧
    1.5 * withoutDot leastDotted.beats = leastDotted.beats := by
  have lasts : Lasts leastDotted.beats := by decide
  have size : ofFloat leastDotted.beats = ⟨0x18000000000000, -1074⟩ := by decide
  have dotted : (ofFloat leastDotted.beats).value = 3 / 2 * 2 ^ (-1022 : Int) := by
    rw [size, value, show (-1022 : Int) = 52 + -1074 from rfl, zpow_add₀ two_ne_zero, ← mul_assoc]
    congr 1
    norm_num
  obtain ⟨found, restored, -⟩ := Element.dot_exact lasts
  obtain ⟨-, plain, back⟩ := restored (-1022) le_rfl (by decide) dotted
  exact ⟨lasts, found.mpr ⟨-1022, le_rfl, by decide, dotted⟩, plain, back⟩

end Elements

end Rhythm
