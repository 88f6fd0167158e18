import Rhythm.Proofs.Binary.Exact

/-
This file orders binary64 numbers. The main statements are `le_iff_rank` and `lt_iff_rank`, that
numbers are compared by their ranks in a linear order.
-/

namespace Rhythm.Binary

open Float.Model Float.Model.UnpackedFloat

/-- Ranks are compared by the first of their parts that differ. -/
abbrev Rank :=
  Int ×ₗ Int ×ₗ Int

/-- The rank of an unpacked number tells its kind before its exponent and its significand.
Negative numbers count down. -/
def unpackedRank : UnpackedFloat → Rank
  | .notANumber => toLex (0, toLex (0, 0))
  | .infinity .negative => toLex (-2, toLex (0, 0))
  | .infinity .positive => toLex (2, toLex (0, 0))
  | .zero _ => toLex (0, toLex (0, 0))
  | .finite .negative significand exponent _ => toLex (-1, toLex (-exponent, -significand))
  | .finite .positive significand exponent _ => toLex (1, toLex (exponent, significand))

def rank (number : Float) : Rank :=
  unpackedRank number.toModel.unpack

/-- Ranks are compared part by part. -/
theorem compare_toLex {A B : Type} [Ord A] [Ord B] (first second : A × B) :
    compare (toLex first) (toLex second) =
      (compare first.1 second.1).then (compare first.2 second.2) := by
  rw [Prod.Lex.compare_def]
  rfl

theorem compare_natCast (first second : Nat) :
    compare (first : Int) second = compare first second := by
  rw [Int.compare_eq_ite_lt, Nat.compare_eq_ite_lt]
  simp only [Int.ofNat_lt]

theorem compare_neg (first second : Int) :
    compare (-first) (-second) = (compare first second).swap := by
  rw [Int.compare_swap, Int.compare_eq_ite_lt, Int.compare_eq_ite_lt]
  simp only [Int.neg_lt_neg_iff]

/-- Unpacked numbers are compared by their ranks. -/
theorem compare_unpacked {first second : UnpackedFloat} (firstDefined : first ≠ .notANumber)
    (secondDefined : second ≠ .notANumber) :
    first.compare second = some (compare (unpackedRank first) (unpackedRank second)) := by
  cases first with
  | notANumber => exact absurd rfl firstDefined
  | infinity side =>
      cases second with
      | notANumber => exact absurd rfl secondDefined
      | infinity other => cases side <;> cases other <;> rfl
      | zero other => cases side <;> rfl
      | finite other => cases side <;> cases other <;> rfl
  | zero side =>
      cases second with
      | notANumber => exact absurd rfl secondDefined
      | infinity other => cases other <;> rfl
      | zero other => rfl
      | finite other => cases other <;> rfl
  | finite side significand exponent positive =>
      cases second with
      | notANumber => exact absurd rfl secondDefined
      | infinity other => cases side <;> cases other <;> rfl
      | zero other => cases side <;> rfl
      | finite other otherSignificand otherExponent otherPositive =>
          -- Only two numbers on one side of zero are compared by their sizes.
          cases side <;> cases other
          case negative.negative =>
            simp only [UnpackedFloat.compare, unpackedRank, compare_toLex, compare_neg,
              compare_natCast, Ordering.swap_then]
            rfl
          case positive.positive =>
            simp only [UnpackedFloat.compare, unpackedRank, compare_toLex, compare_natCast]
            rfl
          case negative.positive => rfl
          case positive.negative => rfl

theorem le_iff_unpack {first second : Float} :
    first ≤ second ↔ first.toModel.unpack.le second.toModel.unpack = true := by
  change decide (first.toModel ≤ second.toModel) = true ↔ _
  rw [decide_eq_true_iff]
  rfl

/-- A number is less than another when both are defined and its rank is less. -/
theorem lt_iff_rank {first second : Float} :
    first < second ↔ first.toModel.unpack ≠ .notANumber ∧
      second.toModel.unpack ≠ .notANumber ∧ rank first < rank second := by
  rw [lt_iff_unpack, UnpackedFloat.lt, beq_iff_eq]
  by_cases firstDefined : first.toModel.unpack = .notANumber
  · simp [firstDefined, UnpackedFloat.compare]
  · by_cases secondDefined : second.toModel.unpack = .notANumber
    · simp [secondDefined, UnpackedFloat.compare]
    · simp [compare_unpacked firstDefined secondDefined, firstDefined, secondDefined, rank,
        compare_lt_iff_lt]

/-- A number is at most another when both are defined and its rank is at most the other's. -/
theorem le_iff_rank {first second : Float} :
    first ≤ second ↔ first.toModel.unpack ≠ .notANumber ∧
      second.toModel.unpack ≠ .notANumber ∧ rank first ≤ rank second := by
  rw [le_iff_unpack, UnpackedFloat.le]
  by_cases firstDefined : first.toModel.unpack = .notANumber
  · simp [firstDefined, UnpackedFloat.compare]
  · by_cases secondDefined : second.toModel.unpack = .notANumber
    · simp [secondDefined, UnpackedFloat.compare]
    · simp [compare_unpacked firstDefined secondDefined, firstDefined, secondDefined, rank,
        Ordering.isLE_iff_ne_gt, compare_le_iff_le]

theorem number_le_trans {first second third : Float} (lower : first ≤ second)
    (upper : second ≤ third) : first ≤ third := by
  obtain ⟨firstDefined, -, lower⟩ := le_iff_rank.mp lower
  obtain ⟨-, thirdDefined, upper⟩ := le_iff_rank.mp upper
  exact le_iff_rank.mpr ⟨firstDefined, thirdDefined, lower.trans upper⟩

theorem number_le_of_lt {first second : Float} (less : first < second) : first ≤ second := by
  obtain ⟨firstDefined, secondDefined, less⟩ := lt_iff_rank.mp less
  exact le_iff_rank.mpr ⟨firstDefined, secondDefined, less.le⟩

theorem number_lt_of_lt_of_le {first second third : Float} (less : first < second)
    (order : second ≤ third) : first < third := by
  obtain ⟨firstDefined, -, less⟩ := lt_iff_rank.mp less
  obtain ⟨-, thirdDefined, order⟩ := le_iff_rank.mp order
  exact lt_iff_rank.mpr ⟨firstDefined, thirdDefined, less.trans_le order⟩

theorem number_not_le_of_lt {first second : Float} (less : first < second) :
    ¬ second ≤ first := by
  intro order
  exact absurd (le_iff_rank.mp order).2.2 (not_le.mpr (lt_iff_rank.mp less).2.2)

/-- Of two numbers one is at most the other if it is not greater. -/
theorem number_le_of_not_lt {first second : Float}
    (firstDefined : first.toModel.unpack ≠ .notANumber)
    (secondDefined : second.toModel.unpack ≠ .notANumber) (bound : ¬ second < first) :
    first ≤ second := by
  refine le_iff_rank.mpr ⟨firstDefined, secondDefined, ?_⟩
  rw [← not_lt]
  intro less
  exact bound (lt_iff_rank.mpr ⟨secondDefined, firstDefined, less⟩)

end Rhythm.Binary
