import Rhythm.Proofs.Binary.Amount
import Rhythm.Proofs.Binary.Approximates

/-
This file adds numbers that are not minus infinity. The main statements are `Grounded.sum_le_sum`
and `Grounded.le_add`, that their sums are numbers in the order of the parts, and
`Amount.foldl_add_le`, that numbers of at most one do not add up to more than there are of them.
-/

namespace Rhythm.Binary

open Float.Model Float.Model.UnpackedFloat

/-- A grounded number is finite or plus infinity. -/
structure Grounded (number : Float) : Prop where
  defined : number.toModel.unpack ≠ .notANumber
  above : -limit < place number

section Sums

variable {first second number : Float}

theorem Grounded.of_le (grounded : Grounded first) (order : first ≤ second) : Grounded second := by
  obtain ⟨-, defined, places⟩ := le_iff_place.mp order
  exact ⟨defined, grounded.above.trans_le places⟩

theorem grounded_of_finite (finite : number.isFinite = true) : Grounded number := by
  obtain ⟨defined, above, -⟩ := isFinite_iff.mp finite
  exact ⟨defined, above⟩

theorem Grounded.finite_or_infinite (grounded : Grounded number) :
    number.isFinite = true ∨ number.toModel.unpack = .infinity .positive := by
  obtain ⟨defined, above⟩ := grounded
  rw [place] at above
  change number.toModel.unpack.isFinite = true ∨ _
  cases unpacked : number.toModel.unpack with
  | notANumber => exact absurd unpacked defined
  | infinity side =>
      cases side with
      | negative =>
          rw [unpacked] at above
          exact absurd above (lt_irrefl _)
      | positive => exact .inr rfl
  | zero side => exact .inl rfl
  | finite side => exact .inl rfl

/-- No number lies behind plus infinity. -/
theorem le_of_infinite (defined : first.toModel.unpack ≠ .notANumber)
    (infinite : second.toModel.unpack = .infinity .positive) : first ≤ second := by
  have last : place second = limit := congrArg unpackedPlace infinite
  refine le_iff_place.mpr ⟨defined, by rw [infinite]; nofun, ?_⟩
  rw [last]
  exact (stretch_unpackedPlace (fits_unpack first)).le_limit

/-- A sum with plus infinity is plus infinity, unless the other number is minus infinity. -/
theorem Grounded.add_infinite (grounded : Grounded second)
    (infinite : first.toModel.unpack = .infinity .positive) :
    (first + second).toModel.unpack = .infinity .positive ∧
      (second + first).toModel.unpack = .infinity .positive := by
  have sums : UnpackedFloat.add Format.binary64 (.infinity .positive) second.toModel.unpack =
      .infinity .positive ∧ UnpackedFloat.add Format.binary64 second.toModel.unpack
        (.infinity .positive) = .infinity .positive := by
    obtain finite | same := grounded.finite_or_infinite
    · change second.toModel.unpack.isFinite = true at finite
      cases unpacked : second.toModel.unpack <;> rw [unpacked] at finite <;>
        first | exact ⟨rfl, rfl⟩ | cases finite
    · rw [same]
      exact ⟨rfl, rfl⟩
  change (Float.Model.pack (UnpackedFloat.add Format.binary64 _ _)).unpack = _ ∧
    (Float.Model.pack (UnpackedFloat.add Format.binary64 _ _)).unpack = _
  rw [infinite, sums.1, sums.2]
  exact ⟨rfl, rfl⟩

theorem Grounded.add_defined (firstGrounded : Grounded first) (secondGrounded : Grounded second) :
    (first + second).toModel.unpack ≠ .notANumber := by
  obtain firstFinite | infinite := firstGrounded.finite_or_infinite
  · obtain secondFinite | infinite := secondGrounded.finite_or_infinite
    · exact (approximates_add firstFinite secondFinite).defined
    · rw [(firstGrounded.add_infinite infinite).2]
      nofun
  · rw [(secondGrounded.add_infinite infinite).1]
    nofun

/-- What is grounded below a finite number is finite. -/
theorem Grounded.finite_of_le (grounded : Grounded first) (order : first ≤ second)
    (finite : second.isFinite = true) : first.isFinite = true :=
  isFinite_iff.mpr ⟨grounded.defined, grounded.above,
    (le_iff_place.mp order).2.2.trans_lt (isFinite_iff.mp finite).2.2⟩

/-- Sums of grounded numbers are in the order of their parts. -/
theorem Grounded.sum_le_sum {third fourth : Float} (firstGrounded : Grounded first)
    (secondGrounded : Grounded second) (firstOrder : first ≤ third)
    (secondOrder : second ≤ fourth) : first + second ≤ third + fourth := by
  have defined := firstGrounded.add_defined secondGrounded
  have thirdGrounded := firstGrounded.of_le firstOrder
  have fourthGrounded := secondGrounded.of_le secondOrder
  obtain thirdFinite | infinite := thirdGrounded.finite_or_infinite
  · obtain fourthFinite | infinite := fourthGrounded.finite_or_infinite
    · have parts := approximates_add (firstGrounded.finite_of_le firstOrder thirdFinite)
        (secondGrounded.finite_of_le secondOrder fourthFinite)
      exact parts.mono (approximates_add thirdFinite fourthFinite)
        (add_le_add (le_iff_place.mp firstOrder).2.2 (le_iff_place.mp secondOrder).2.2)
    · exact le_of_infinite defined (thirdGrounded.add_infinite infinite).2
  · exact le_of_infinite defined (fourthGrounded.add_infinite infinite).1

/-- A number is no less than it was when one that is not negative is added to it. -/
theorem Grounded.le_add (grounded : Grounded first) (nonneg : 0 ≤ second) :
    first ≤ first + second ∧ first ≤ second + first := by
  obtain ⟨-, -, places⟩ := le_iff_place.mp nonneg
  rw [place_zero] at places
  have secondGrounded := (grounded_of_finite rfl).of_le nonneg
  obtain firstFinite | infinite := grounded.finite_or_infinite
  · obtain secondFinite | infinite := secondGrounded.finite_or_infinite
    · have own := approximates_place firstFinite
      exact ⟨own.mono (approximates_add firstFinite secondFinite) (by linarith),
        own.mono (approximates_add secondFinite firstFinite) (by linarith)⟩
    · have sums := grounded.add_infinite infinite
      exact ⟨le_of_infinite grounded.defined sums.2, le_of_infinite grounded.defined sums.1⟩
  · have sums := secondGrounded.add_infinite infinite
    exact ⟨le_of_infinite grounded.defined sums.1, le_of_infinite grounded.defined sums.2⟩

/-- A natural number of 53 bits is a finite number in its own place. -/
theorem place_natural {natural : Nat} (small : natural < 2 ^ 53) :
    (Float.ofNat natural).isFinite = true ∧ place (Float.ofNat natural) = natural := by
  obtain rfl | positive := Nat.eq_zero_or_pos natural
  · exact ⟨rfl, Nat.cast_zero.symm⟩
  · obtain ⟨lasts, same⟩ := value_ofNat positive small
    exact ⟨lasts.2, (place_of_lasts lasts).trans same⟩

/-- A positive word is the natural number that it holds. -/
theorem toFloat_eq_ofNat {word : UInt32} (positive : 0 < word) :
    word.toFloat = Float.ofNat word.toNat :=
  (Decimal.ofScientific_natural (lasts_toFloat positive) (value_toFloat positive).symm).symm

end Sums

namespace Amount

variable {first second factor number : Float}

/-- An amount is infinity, zero or a finite number, all without a minus sign. -/
theorem unpack_cases (amount : Amount number) :
    number.toModel.unpack = .infinity .positive ∨ number.toModel.unpack = .zero .positive ∨
      ∃ significand exponent filled,
        number.toModel.unpack = .finite .positive significand exponent filled := by
  obtain ⟨defined, plus⟩ := amount
  cases unpacked : number.toModel.unpack with
  | notANumber => exact absurd unpacked defined
  | infinity side =>
      rw [unpacked] at plus
      cases plus
      exact .inl rfl
  | zero side =>
      rw [unpacked] at plus
      cases plus
      exact .inr (.inl rfl)
  | finite side significand exponent filled =>
      rw [unpacked] at plus
      cases plus
      exact .inr (.inr ⟨significand, exponent, filled, rfl⟩)

/-- An amount is no less than zero. -/
theorem nonneg (amount : Amount number) : 0 ≤ number := by
  refine le_iff_place.mpr ⟨nofun, amount.defined, ?_⟩
  rw [place_zero, place]
  obtain infinite | zero | ⟨significand, exponent, filled, finite⟩ := amount.unpack_cases
  · rw [infinite]
    exact limit_pos.le
  · rw [zero]
    exact le_rfl
  · rw [finite]
    exact (value_pos filled : 0 < value ⟨significand, exponent⟩).le

theorem grounded (amount : Amount number) : Grounded number :=
  (grounded_of_finite rfl).of_le amount.nonneg

/-- Numbers greater than zero are finite or plus infinity. -/
theorem lasts_or_infinite (positive : 0 < number) :
    Lasts number ∨ number.toModel.unpack = .infinity .positive := by
  obtain ⟨-, defined, places⟩ := lt_iff_place.mp positive
  have bottom := limit_pos
  have grounded : Grounded number := ⟨defined, by rw [place_zero] at places; linarith⟩
  exact grounded.finite_or_infinite.imp_left fun finite => ⟨positive, finite⟩

/-- A finite amount over a positive number is an amount, also if that number is infinite. -/
theorem div (amount : Amount first) (finite : first.isFinite = true) (positive : 0 < second) :
    Amount (first / second) := by
  have plus := (unpackedSign_unpack first).symm.trans amount.2
  obtain lasts | infinite := lasts_or_infinite positive
  · refine ⟨(approximates_div finite lasts).defined, ?_⟩
    rw [unpackedSign_unpack]
    exact sign_div plus ((unpackedSign_unpack second).symm.trans (of_lasts lasts).2)
  · have quotient : UnpackedAmount (UnpackedFloat.div Format.binary64 first.toModel.unpack
        second.toModel.unpack) := by
      change first.toModel.unpack.isFinite = true at finite
      obtain unbounded | zero | ⟨significand, exponent, filled, size⟩ := amount.unpack_cases
      · rw [unbounded] at finite
        cases finite
      · rw [zero, infinite]
        exact ⟨nofun, rfl⟩
      · rw [size, infinite]
        exact ⟨nofun, rfl⟩
    exact of_packed quotient rfl

/-- Infinity times a positive finite number is infinity. -/
theorem mul_infinite (infinite : number.toModel.unpack = .infinity .positive)
    (lasts : Lasts factor) : (number * factor).toModel.unpack = .infinity .positive := by
  obtain ⟨-, filled, unpacked⟩ := unpack_of_lasts lasts
  have product : UnpackedFloat.mul Format.binary64 number.toModel.unpack factor.toModel.unpack =
      .infinity .positive := by
    rw [infinite, unpacked]
    rfl
  change (Float.Model.pack (UnpackedFloat.mul Format.binary64 _ _)).unpack = _
  rw [product]
  rfl

/-- Products of amounts are in the order of the amounts. -/
theorem mul_le_mul (firstAmount : Amount first) (secondAmount : Amount second)
    (order : first ≤ second) (lasts : Lasts factor) : first * factor ≤ second * factor := by
  obtain finite | infinite := secondAmount.grounded.finite_or_infinite
  · have firstFinite := firstAmount.grounded.finite_of_le order finite
    have scale : 0 ≤ place factor := (le_iff_place.mp (of_lasts lasts).nonneg).2.2
    exact (approximates_mul firstFinite lasts).mono (approximates_mul finite lasts)
      (mul_le_mul_of_nonneg_right (le_iff_place.mp order).2.2 scale)
  · exact le_of_infinite (firstAmount.mul lasts).defined (mul_infinite infinite lasts)

/-- Amounts that are added one after the other make up no less than each of them. -/
theorem le_foldl_add {start : Float} {numbers : List Float} (startAmount : Amount start)
    (amounts : ∀ own ∈ numbers, Amount own) :
    start ≤ numbers.foldl (· + ·) start ∧ ∀ own ∈ numbers, own ≤ numbers.foldl (· + ·) start := by
  induction numbers generalizing start with
  | nil => exact ⟨number_le_refl startAmount.defined, by simp⟩
  | cons own rest inductionHypothesis =>
      obtain ⟨ownAmount, others⟩ := List.forall_mem_cons.mp amounts
      obtain ⟨total, parts⟩ := inductionHypothesis (startAmount.add ownAmount) others
      have startLe := (startAmount.grounded.le_add ownAmount.nonneg).1
      have ownLe := (ownAmount.grounded.le_add startAmount.nonneg).2
      refine ⟨number_le_trans startLe total, ?_⟩
      exact List.forall_mem_cons.mpr ⟨number_le_trans ownLe total, parts⟩

/-- A sum with a number of at most one does not get beyond the next natural number, since that is
not rounded. -/
theorem add_le_succ {bound : Nat} (firstAmount : Amount first) (secondAmount : Amount second)
    (firstLe : first ≤ Float.ofNat bound) (secondLe : second ≤ 1) (small : bound + 1 < 2 ^ 53) :
    first + second ≤ Float.ofNat (bound + 1) := by
  obtain ⟨boundFinite, boundPlace⟩ := place_natural ((Nat.lt_succ_self bound).trans small)
  obtain ⟨nextFinite, nextPlace⟩ := place_natural small
  obtain ⟨oneFinite, onePlace⟩ := place_natural (by decide : 1 < 2 ^ 53)
  have sum := approximates_add (firstAmount.grounded.finite_of_le firstLe boundFinite)
    (secondAmount.grounded.finite_of_le secondLe oneFinite)
  have firstOrder : place first ≤ bound := boundPlace ▸ (le_iff_place.mp firstLe).2.2
  have secondOrder : place second ≤ 1 := by
    rw [← Nat.cast_one, ← onePlace]
    exact (le_iff_place.mp secondLe).2.2
  refine sum.mono (approximates_place nextFinite) ?_
  rw [nextPlace, Nat.cast_succ]
  exact add_le_add firstOrder secondOrder

/-- Numbers of at most one that are added one after the other make up no more than there are of
them. -/
theorem foldl_add_le {start : Float} {numbers : List Float} {bound : Nat}
    (startAmount : Amount start) (startLe : start ≤ Float.ofNat bound)
    (parts : ∀ own ∈ numbers, Amount own ∧ own ≤ 1) (small : bound + numbers.length < 2 ^ 53) :
    numbers.foldl (· + ·) start ≤ Float.ofNat (bound + numbers.length) := by
  -- Each number moves the start of what is left, and the bound by one.
  induction numbers generalizing start bound with
  | nil => exact startLe
  | cons own rest inductionHypothesis =>
      obtain ⟨⟨ownAmount, ownLe⟩, others⟩ := List.forall_mem_cons.mp parts
      rw [List.length_cons, Nat.add_comm rest.length, ← Nat.add_assoc] at small ⊢
      have next := startAmount.add_le_succ ownAmount startLe ownLe (by omega)
      exact inductionHypothesis (startAmount.add ownAmount) next others small

end Amount

end Rhythm.Binary
