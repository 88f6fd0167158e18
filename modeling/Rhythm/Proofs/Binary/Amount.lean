import Rhythm.Proofs.Binary.Order
import Rhythm.Proofs.Binary.Sign

/-
This file follows amounts, which are numbers without a minus sign, through sums and products. The
main statements are `Amount.add` and `Amount.mul`, that both are numbers again.
-/

namespace Rhythm.Binary

open Float.Model Float.Model.UnpackedFloat

/-- An unpacked amount is a number without a minus sign. -/
def UnpackedAmount (unpacked : UnpackedFloat) : Prop :=
  unpacked ≠ .notANumber ∧ unpackedSign unpacked = .positive

/-- An amount is a number without a minus sign. It may be infinite. -/
def Amount (number : Float) : Prop :=
  UnpackedAmount number.toModel.unpack

theorem isNaN_eq_false_iff {number : Float} :
    number.isNaN = false ↔ number.toModel.unpack ≠ .notANumber := by
  change number.toModel.unpack.isNaN = false ↔ _
  cases number.toModel.unpack <;> simp [UnpackedFloat.isNaN]

section Unpacked

variable {first second : UnpackedFloat}

theorem unpackedAmount_roundWithAccuracy (significand : Nat) (exponent : Int)
    (accuracy : Accuracy) :
    UnpackedAmount (roundWithAccuracy Format.binary64 .positive significand exponent accuracy) :=
  ⟨roundWithAccuracy_ne_notANumber _ _ _ _ _, unpackedSign_roundWithAccuracy _ _ _ _ _⟩

theorem unpackedAmount_normalize {significand : Int} (positive : 0 ≤ significand)
    (exponent : Int) :
    UnpackedAmount (UnpackedFloat.normalize Format.binary64 significand exponent .positive) := by
  unfold UnpackedFloat.normalize
  split
  case h_1 below =>
    rw [Int.compare_eq_lt] at below
    omega
  case h_2 => exact ⟨by simp, rfl⟩
  case h_3 => exact unpackedAmount_roundWithAccuracy _ _ _

theorem unpackedAmount_add (firstAmount : UnpackedAmount first)
    (secondAmount : UnpackedAmount second) :
    UnpackedAmount (UnpackedFloat.add Format.binary64 first second) := by
  obtain ⟨firstDefined, firstPlus⟩ := firstAmount
  obtain ⟨secondDefined, secondPlus⟩ := secondAmount
  cases first with
  | notANumber => exact absurd rfl firstDefined
  | infinity side =>
      cases firstPlus
      cases second with
      | notANumber => exact absurd rfl secondDefined
      | infinity other =>
          cases secondPlus
          exact ⟨by simp [UnpackedFloat.add], rfl⟩
      | zero other => exact ⟨by simp [UnpackedFloat.add], rfl⟩
      | finite other => exact ⟨by simp [UnpackedFloat.add], rfl⟩
  | zero side =>
      cases firstPlus
      cases second with
      | notANumber => exact absurd rfl secondDefined
      | infinity other => exact ⟨by simp [UnpackedFloat.add], secondPlus⟩
      | zero other =>
          cases secondPlus
          exact ⟨by simp [UnpackedFloat.add], rfl⟩
      | finite other => exact ⟨by simp [UnpackedFloat.add], secondPlus⟩
  | finite side significand exponent positive =>
      cases firstPlus
      cases second with
      | notANumber => exact absurd rfl secondDefined
      | infinity other => exact ⟨by simp [UnpackedFloat.add], secondPlus⟩
      | zero other => exact ⟨by simp [UnpackedFloat.add], rfl⟩
      | finite other =>
          cases secondPlus
          exact unpackedAmount_normalize
            (add_nonneg (Int.natCast_nonneg _) (Int.natCast_nonneg _)) _

/-- An amount times a positive finite number is an amount. -/
theorem unpackedAmount_mul {significand : Nat} {exponent : Int} {positive : 0 < significand}
    (amount : UnpackedAmount first) :
    UnpackedAmount (UnpackedFloat.mul Format.binary64 first
      (.finite .positive significand exponent positive)) := by
  obtain ⟨defined, plus⟩ := amount
  cases first with
  | notANumber => exact absurd rfl defined
  | infinity side =>
      cases plus
      exact ⟨by simp [UnpackedFloat.mul], rfl⟩
  | zero side =>
      cases plus
      exact ⟨by simp [UnpackedFloat.mul], rfl⟩
  | finite side =>
      cases plus
      exact unpackedAmount_roundWithAccuracy _ _ _

end Unpacked

namespace Amount

variable {first second number : Float}

theorem defined (amount : Amount number) : number.toModel.unpack ≠ .notANumber :=
  amount.1

/-- An amount that is packed is one. -/
theorem of_packed {unpacked : UnpackedFloat} (amount : UnpackedAmount unpacked)
    (packed : number.toModel = Float.Model.pack unpacked) : Amount number := by
  refine ⟨unpack_ne_notANumber packed amount.1, ?_⟩
  rw [unpackedSign_unpack, sign_pack packed]
  exact amount.2

theorem of_lasts (lasts : Lasts number) : Amount number := by
  obtain ⟨-, positive, unpacked⟩ := unpack_of_lasts lasts
  rw [Amount, unpacked]
  exact ⟨by simp, rfl⟩

theorem zero : Amount 0 := by
  change UnpackedAmount (.zero .positive)
  exact ⟨by simp, rfl⟩

/-- A sum of amounts is an amount. -/
theorem add (firstAmount : Amount first) (secondAmount : Amount second) :
    Amount (first + second) :=
  of_packed (unpackedAmount_add firstAmount secondAmount) rfl

theorem mul (amount : Amount first) (lasts : Lasts second) : Amount (first * second) := by
  obtain ⟨-, positive, unpacked⟩ := unpack_of_lasts lasts
  have product : UnpackedAmount (UnpackedFloat.mul Format.binary64 first.toModel.unpack
      second.toModel.unpack) := by
    rw [unpacked]
    exact unpackedAmount_mul amount
  exact of_packed product rfl

/-- Amounts that are added one after the other make up an amount. -/
theorem foldl_add {start : Float} {numbers : List Float} (startAmount : Amount start)
    (amounts : ∀ own ∈ numbers, Amount own) : Amount (numbers.foldl (· + ·) start) := by
  induction numbers generalizing start with
  | nil => exact startAmount
  | cons own rest inductionHypothesis =>
      obtain ⟨ownAmount, others⟩ := List.forall_mem_cons.mp amounts
      exact inductionHypothesis (startAmount.add ownAmount) others

end Amount

end Rhythm.Binary
