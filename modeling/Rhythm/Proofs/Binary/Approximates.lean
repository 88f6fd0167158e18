import Rhythm.Proofs.Binary.Place
import Rhythm.Proofs.Binary.Sized

/-
This file says which exact numbers the results of binary64 arithmetic stand for, on both sides of
zero and beyond the finite numbers. The main statements are `approximates_add`, that a sum is the
rounded one, and `Approximates.mono`, that rounding keeps numbers in order.
-/

namespace Rhythm.Binary

open Float.Model Float.Model.UnpackedFloat

/-- The exact number is rounded on its own side of zero. -/
def RoundsSigned (exact rounded : ℚ) : Prop :=
  ∃ side, 0 ≤ signed side exact ∧ RoundsTo (signed side exact) (signed side rounded)

section Rounding

variable {exact rounded first second below above : ℚ} {number other : Float} {binary : Binary}
  {unpacked : UnpackedFloat}

theorem RoundsTo.nonneg (rounds : RoundsTo exact rounded) : 0 ≤ rounded := by
  obtain ⟨exponent, whole, -, -, -, -, rfl⟩ := rounds
  positivity

/-- Rounding keeps numbers in order on both sides of zero. -/
theorem RoundsSigned.mono (firstRounds : RoundsSigned first below)
    (secondRounds : RoundsSigned second above) (order : first ≤ second) : below ≤ above := by
  obtain ⟨side, firstSide, firstRounds⟩ := firstRounds
  obtain ⟨other, secondSide, secondRounds⟩ := secondRounds
  cases side <;> cases other <;> simp only [signed] at *
  case positive.positive => exact firstRounds.mono secondRounds order
  case negative.negative =>
    exact neg_le_neg_iff.mp (secondRounds.mono firstRounds (neg_le_neg order))
  case negative.positive =>
    have belowNonpos := firstRounds.nonneg
    have aboveNonneg := secondRounds.nonneg
    linarith
  case positive.negative =>
    -- Both numbers are zero, since they lie on the wrong sides of each other.
    have belowNonpos := firstRounds.mono roundsTo_zero (by linarith)
    have aboveNonneg := secondRounds.mono roundsTo_zero (by linarith)
    linarith

/-- A number approximates an exact one when it is what this is rounded to. Beyond the limit there
is only infinity. -/
structure Approximates (exact : ℚ) (number : Float) : Prop where
  defined : number.toModel.unpack ≠ .notANumber
  rounds : ∃ rounded, RoundsSigned exact rounded ∧
    place number = max (-limit) (min rounded limit)

/-- Numbers are in the order of the exact ones that they approximate. -/
theorem Approximates.mono (firstNear : Approximates first number)
    (secondNear : Approximates second other) (order : first ≤ second) : number ≤ other := by
  obtain ⟨firstDefined, below, firstRounds, firstPlace⟩ := firstNear
  obtain ⟨secondDefined, above, secondRounds, secondPlace⟩ := secondNear
  refine le_iff_place.mpr ⟨firstDefined, secondDefined, ?_⟩
  rw [firstPlace, secondPlace]
  exact max_le_max_left _ (min_le_min_right _ (firstRounds.mono secondRounds order))

/-- An unpacked number is the rounding of an exact one when it has the side of the exact number and
the size that this is rounded to. Its exponent may be too large for a word. -/
def Rounding (exact : ℚ) (unpacked : UnpackedFloat) : Prop :=
  ∃ side binary, Rounded binary ∧ 0 ≤ signed side exact ∧
    RoundsTo (signed side exact) binary.value ∧ unpacked = unpackedSize side binary

theorem unpackedPlace_unpackedSize (side : Sign) (binary : Binary) :
    unpackedPlace (unpackedSize side binary) = signed side binary.value := by
  unfold unpackedSize
  split
  case isTrue => rfl
  case isFalse empty =>
    rw [value, Nat.eq_zero_of_not_pos empty, Nat.cast_zero, zero_mul]
    cases side <;> simp [unpackedPlace, signed]

/-- A size is packed as it is unless its exponent is too large. -/
theorem unpack_pack_unpackedSize (side : Sign) (rounded : Rounded binary) :
    (Float.Model.pack (unpackedSize side binary)).unpack =
      if binary.exponent ≤ 971 then unpackedSize side binary else .infinity side := by
  obtain ⟨below, least, normal⟩ := rounded
  unfold unpackedSize
  split
  case isTrue positive =>
    split
    case isTrue small => exact unpack_pack ⟨positive, below, least, small, normal⟩ positive
    case isFalse large =>
      have bias : ((Format.exponentBias Format.binary64 : Nat) : Int) = 1023 := by decide
      have packed : Float.Model.pack (.finite side binary.significand binary.exponent positive) =
          Float.Model.pack (.infinity side) := by
        have room : 2 ^ 11 ≤ (binary.exponent + 1023 + 52).toNat + 1 := by omega
        unfold Float.Model.pack UnpackedFloat.pack
        simp only [bias]
        congr 2
        exact if_pos room
      rw [packed]
      cases side <;> rfl
  case isFalse empty =>
    have small : binary.exponent ≤ 971 := by
      obtain long | least := normal
      · exact absurd (Nat.lt_of_lt_of_le (by decide) long) empty
      · omega
    rw [if_pos small]
    cases side <;> rfl

/-- The packed rounding of an exact number approximates it. -/
theorem approximates_of_packed (rounding : Rounding exact unpacked)
    (packed : number.toModel = Float.Model.pack unpacked) : Approximates exact number := by
  obtain ⟨side, binary, rounded, nonneg, rounds, rfl⟩ := rounding
  have found := unpack_pack_unpackedSize side rounded
  rw [← packed] at found
  refine ⟨?_, signed side binary.value, ⟨side, nonneg, ?_⟩, ?_⟩
  · rw [found]
    unfold unpackedSize
    split_ifs <;> simp
  · cases side <;> simpa [signed] using rounds
  · have size : 0 ≤ binary.value := rounds.nonneg
    have positive := limit_pos
    have reached := rounded.limit_le_iff
    rw [place, found]
    split
    case isTrue small =>
      have under : binary.value < limit := not_le.mp (reached.not.mpr (not_lt.mpr small))
      rw [unpackedPlace_unpackedSize]
      cases side <;> simp only [signed]
      · rw [min_eq_left (by linarith), max_eq_right (by linarith)]
      · rw [min_eq_left under.le, max_eq_right (by linarith)]
    case isFalse large =>
      have beyond : limit ≤ binary.value := reached.mpr (not_le.mp large)
      cases side <;> simp only [unpackedPlace, signed]
      · rw [min_eq_left (by linarith), max_eq_left (by linarith)]
      · rw [min_eq_right beyond, max_eq_right (by linarith)]

theorem rounding_zero (side : Sign) : Rounding 0 (.zero side) := by
  refine ⟨side, ⟨0, -1074⟩, ⟨by decide, by decide, .inr rfl⟩, ?_, ?_, rfl⟩
  · cases side <;> simp [signed]
  · cases side <;> simpa [signed, value] using roundsTo_zero

/-- A finite number is the rounding of its place. -/
theorem rounding_unpackedPlace (fits : Fits unpacked) (finite : unpacked.isFinite = true) :
    Rounding (unpackedPlace unpacked) unpacked := by
  cases unpacked with
  | notANumber => cases finite
  | infinity side => cases finite
  | zero side => exact rounding_zero side
  | finite side significand exponent positive =>
      have canonical := fits side significand exponent positive rfl
      have nonneg := (value_pos positive : 0 < value ⟨significand, exponent⟩).le
      refine ⟨side, ⟨significand, exponent⟩, canonical.rounded, ?_, ?_, (dif_pos positive).symm⟩
      · cases side <;> simpa [signed, unpackedPlace] using nonneg
      · cases side <;> simpa [signed, unpackedPlace] using canonical.roundsTo

end Rounding

section Sum

variable {significand : Nat} {exponent : Int} {first second : UnpackedFloat}

/-- A positive size is rounded also where its exponent has to be lowered first. -/
theorem exists_rounded_round (side : Sign) (positive : 0 < significand) :
    ∃ binary, Rounded binary ∧ RoundsTo (value ⟨significand, exponent⟩) binary.value ∧
      UnpackedFloat.round Format.binary64 side significand exponent =
        unpackedSize side binary := by
  generalize aim : Format.binary64.targetExponent (totalExponent significand exponent) = target
  have lower : exponent - (exponent - target).toNat ≤ exponent := by omega
  have places : (exponent - (exponent - (exponent - target).toNat)).toNat =
      (exponent - target).toNat := by omega
  let fine := (⟨significand, exponent⟩ : Binary).lowered (exponent - (exponent - target).toNat)
  have same : fine.value = value ⟨significand, exponent⟩ := value_lowered lower
  have longer : fine.significand = significand * 2 ^ (exponent - target).toNat :=
    congrArg (significand * 2 ^ ·) places
  have filled : 0 < fine.significand := by
    rw [longer]
    positivity
  have total := totalExponent_eq_of_value_eq filled positive same
  have keeps := keeps_exact fine.significand
  have scaled : (fine.significand : ℚ) = fine.value / 2 ^ fine.exponent := by
    rw [value, mul_div_cancel_right₀ _ (by positivity)]
  rw [scaled, same] at keeps
  obtain ⟨binary, rounded, rounds, result⟩ := roundsTo_roundWithAccuracy side keeps (by
    rw [total, aim]
    change exponent - (exponent - target).toNat ≤ target
    omega)
  refine ⟨binary, rounded, rounds, ?_⟩
  rw [← result, longer]
  simp only [UnpackedFloat.round, decreaseExponent, aim, Nat.shiftLeft_eq]
  rfl

/-- A signed significand is rounded on the side of zero where it lies. -/
theorem rounding_normalize (significand exponent : Int) :
    Rounding (significand * 2 ^ exponent)
      (UnpackedFloat.normalize Format.binary64 significand exponent .positive) := by
  have size (natural : Nat) : value ⟨natural, exponent⟩ = (natural : Int) * 2 ^ exponent := rfl
  unfold UnpackedFloat.normalize
  split
  case h_1 below =>
    rw [Int.compare_eq_lt] at below
    obtain ⟨binary, rounded, rounds, result⟩ :=
      @exists_rounded_round (-significand).toNat exponent .negative (by omega)
    rw [size, Int.toNat_of_nonneg (by omega), Int.cast_neg, neg_mul] at rounds
    have nonneg : 0 ≤ -((significand : ℚ) * 2 ^ exponent) := by
      have upper : (significand : ℚ) ≤ 0 := by exact_mod_cast below.le
      exact neg_nonneg.mpr (mul_nonpos_of_nonpos_of_nonneg upper (by positivity))
    exact ⟨.negative, binary, rounded, nonneg, rounds, result⟩
  case h_2 zero =>
    rw [Int.compare_eq_eq] at zero
    rw [zero, Int.cast_zero, zero_mul]
    exact rounding_zero .positive
  case h_3 above =>
    rw [Int.compare_eq_gt] at above
    obtain ⟨binary, rounded, rounds, result⟩ :=
      @exists_rounded_round significand.toNat exponent .positive (by omega)
    rw [size, Int.toNat_of_nonneg (by omega)] at rounds
    have nonneg : 0 ≤ (significand : ℚ) * 2 ^ exponent := by
      have lower : (0 : ℚ) ≤ significand := by exact_mod_cast above.le
      exact mul_nonneg lower (by positivity)
    exact ⟨.positive, binary, rounded, nonneg, rounds, result⟩

/-- A significand on one side of zero keeps its place over a lower exponent. -/
theorem apply_decreaseExponent (side : Sign) (significand : Nat) {exponent target : Int}
    (lower : target ≤ exponent) :
    ((side.apply (decreaseExponent significand exponent target).1 : Int) : ℚ) * 2 ^ target =
      signed side (value ⟨significand, exponent⟩) := by
  have same := @value_lowered ⟨significand, exponent⟩ target lower
  rw [← same]
  cases side <;>
    simp [Sign.apply, signed, decreaseExponent, Nat.shiftLeft_eq, value, lowered]

/-- The sum of finite numbers is the rounded one. -/
theorem rounding_add (firstFits : Fits first) (secondFits : Fits second)
    (firstFinite : first.isFinite = true) (secondFinite : second.isFinite = true) :
    Rounding (unpackedPlace first + unpackedPlace second)
      (UnpackedFloat.add Format.binary64 first second) := by
  cases first with
  | notANumber => cases firstFinite
  | infinity side => cases firstFinite
  | zero side =>
      rw [show unpackedPlace (.zero side) = 0 from rfl, zero_add]
      cases second with
      | notANumber => cases secondFinite
      | infinity other => cases secondFinite
      | zero other => cases side <;> cases other <;> exact rounding_zero _
      | finite other => exact rounding_unpackedPlace secondFits secondFinite
  | finite side significand exponent positive =>
      cases second with
      | notANumber => cases secondFinite
      | infinity other => cases secondFinite
      | zero other =>
          rw [show unpackedPlace (.zero other) = 0 from rfl, add_zero]
          exact rounding_unpackedPlace firstFits firstFinite
      | finite other otherSignificand otherExponent otherPositive =>
          have total := rounding_normalize
            (side.apply (decreaseExponent significand exponent (min exponent otherExponent)).1 +
              other.apply
                (decreaseExponent otherSignificand otherExponent (min exponent otherExponent)).1)
            (min exponent otherExponent)
          rw [Int.cast_add, add_mul, apply_decreaseExponent side significand (min_le_left _ _),
            apply_decreaseExponent other otherSignificand (min_le_right _ _)] at total
          exact total

end Sum

section Numbers

variable {first second number : Float}

/-- An unpacked difference is a sum with the opposite number. -/
theorem unpacked_sub_eq_add_neg (format : Format) (first second : UnpackedFloat) :
    UnpackedFloat.sub format first second = UnpackedFloat.add format first second.neg := by
  cases first with
  | finite side =>
      cases second with
      | finite other =>
          simp only [UnpackedFloat.sub, UnpackedFloat.add, UnpackedFloat.neg]
          cases other with
          | negative => exact congrArg (UnpackedFloat.normalize format · _ _) (Int.sub_neg _ _)
          | positive => exact congrArg (UnpackedFloat.normalize format · _ _) Int.sub_eq_add_neg
      | _ => rfl
  | _ => cases second <;> rfl

/-- A difference is a sum with the opposite number. -/
theorem number_sub_eq_add_neg (first second : Float) : first - second = first + -second := by
  change Float.ofModel (Float.Model.pack (UnpackedFloat.sub Format.binary64 first.toModel.unpack
    second.toModel.unpack)) = Float.ofModel (Float.Model.pack (UnpackedFloat.add Format.binary64
      first.toModel.unpack (-second).toModel.unpack))
  rw [unpack_neg, unpacked_sub_eq_add_neg]

/-- The sum of finite numbers approximates the exact one. -/
theorem approximates_add (firstFinite : first.isFinite = true)
    (secondFinite : second.isFinite = true) :
    Approximates (place first + place second) (first + second) :=
  approximates_of_packed
    (rounding_add (fits_unpack first) (fits_unpack second) firstFinite secondFinite) rfl

/-- A finite number approximates its place. -/
theorem approximates_place (finite : number.isFinite = true) :
    Approximates (place number) number :=
  approximates_of_packed (rounding_unpackedPlace (fits_unpack number) finite)
    (eq_pack_unpack number)

end Numbers

section Scaling

variable {first number factor : Float} {unpacked : UnpackedFloat} {binary : Binary}

theorem signed_mul (side : Sign) (size scale : ℚ) :
    signed side (size * scale) = signed side size * scale := by
  cases side with
  | negative => exact (neg_mul size scale).symm
  | positive => rfl

theorem signed_signed (side : Sign) (size : ℚ) : signed side (signed side size) = size := by
  cases side with
  | negative => exact neg_neg size
  | positive => rfl

/-- A size is the rounding of an exact number on its own side of zero. -/
theorem rounding_size {exact : ℚ} (side : Sign) (nonneg : 0 ≤ exact) (rounded : Rounded binary)
    (rounds : RoundsTo exact binary.value) :
    Rounding (signed side exact) (unpackedSize side binary) := by
  refine ⟨side, binary, rounded, ?_, ?_, rfl⟩
  · rwa [signed_signed]
  · rwa [signed_signed]

/-- The product of a finite number with a positive one is the rounded one. -/
theorem rounding_mul (fits : Fits unpacked) (finite : unpacked.isFinite = true)
    (canonical : Canonical binary) :
    Rounding (unpackedPlace unpacked * binary.value) (UnpackedFloat.mul Format.binary64 unpacked
      (.finite .positive binary.significand binary.exponent canonical.positive)) := by
  cases unpacked with
  | notANumber => cases finite
  | infinity side => cases finite
  | zero side =>
      rw [show unpackedPlace (.zero side) = 0 from rfl, zero_mul]
      cases side <;> exact rounding_zero _
  | finite side significand exponent positive =>
      obtain ⟨product, rounded, rounds, result⟩ :=
        exists_rounded_mul side (fits side significand exponent positive rfl) canonical
      rw [result, unpackedPlace, ← signed_mul]
      exact rounding_size side (mul_pos (value_pos positive) (value_pos canonical.positive)).le
        rounded rounds

/-- The quotient of a finite number by a positive one is the rounded one. -/
theorem rounding_div (finite : unpacked.isFinite = true) (filled : 0 < binary.significand) :
    Rounding (unpackedPlace unpacked / binary.value) (UnpackedFloat.div Format.binary64 unpacked
      (.finite .positive binary.significand binary.exponent filled)) := by
  cases unpacked with
  | notANumber => cases finite
  | infinity side => cases finite
  | zero side =>
      rw [show unpackedPlace (.zero side) = 0 from rfl, zero_div]
      cases side <;> exact rounding_zero _
  | finite side significand exponent positive =>
      obtain ⟨quotient, rounded, rounds, result⟩ :=
        @exists_rounded_div side ⟨significand, exponent⟩ binary positive filled
      rw [result, unpackedPlace, div_eq_mul_inv, ← signed_mul, ← div_eq_mul_inv]
      exact rounding_size side (div_pos (value_pos positive) (value_pos filled)).le rounded rounds

theorem place_of_lasts (lasts : Lasts number) : place number = (ofFloat number).value := by
  obtain ⟨-, positive, unpacked⟩ := unpack_of_lasts lasts
  rw [place, unpacked]
  rfl

/-- The product of a finite number with a positive one approximates the exact one. -/
theorem approximates_mul (finite : number.isFinite = true) (lasts : Lasts factor) :
    Approximates (place number * place factor) (number * factor) := by
  obtain ⟨canonical, positive, unpacked⟩ := unpack_of_lasts lasts
  have product := rounding_mul (fits_unpack number) finite canonical
  rw [place_of_lasts lasts]
  refine approximates_of_packed product ?_
  rw [← unpacked]
  rfl

/-- The quotient of a finite number by a positive one approximates the exact one. -/
theorem approximates_div (finite : number.isFinite = true) (lasts : Lasts factor) :
    Approximates (place number / place factor) (number / factor) := by
  obtain ⟨canonical, positive, unpacked⟩ := unpack_of_lasts lasts
  have quotient := rounding_div finite positive
  rw [place_of_lasts lasts]
  refine approximates_of_packed quotient ?_
  rw [← unpacked]
  rfl

end Scaling

section Middle

variable {first second : Float} {exact rounded : ℚ}

/-- Twice a number that is kept by rounding is kept as well. -/
theorem RoundsTo.double (rounds : RoundsTo exact exact) : RoundsTo (2 * exact) (2 * exact) := by
  obtain ⟨exponent, whole, least, lower, upper, nearest, same⟩ := rounds
  have scale : (2 : ℚ) ^ exponent ≠ 0 := by positivity
  obtain long | short := le_or_gt (2 ^ (exponent + 52)) exact
  · have doubled : 2 * exact / 2 ^ (exponent + 1) = exact / 2 ^ exponent := by
      rw [zpow_add_one₀ two_ne_zero, mul_comm 2 exact, mul_div_mul_right _ _ two_ne_zero]
    have power (places : Int) :
        (2 : ℚ) ^ (exponent + 1 + places) = 2 * 2 ^ (exponent + places) := by
      rw [add_right_comm, zpow_add_one₀ two_ne_zero, mul_comm]
    refine ⟨exponent + 1, whole, by omega, .inr ?_, ?_, by rwa [doubled], ?_⟩
    · rw [power]
      linarith
    · rw [power]
      linarith
    · rw [zpow_add_one₀ two_ne_zero]
      linarith
  · have bottom := lower.resolve_right (not_le.mpr short)
    refine ⟨exponent, 2 * whole, least, .inl bottom, ?_, ?_, ?_⟩
    · have wide : (2 : ℚ) ^ (exponent + 53) = 2 * 2 ^ (exponent + 52) := by
        rw [← zpow_one_add₀ two_ne_zero]
        congr 1
        ring
      rw [wide]
      linarith
    · have natural : 2 * exact / 2 ^ exponent = (2 * whole : Nat) := by
        rw [same]
        push_cast
        field_simp
      rw [natural]
      exact nearest_natCast _
    · push_cast
      linarith

/-- Twice the place of a finite number is kept by rounding. -/
theorem roundsSigned_double {number : Float} (finite : number.isFinite = true) :
    RoundsSigned (2 * place number) (2 * place number) := by
  have doubled (side : Sign) (size : ℚ) : signed side (2 * size) = 2 * signed side size := by
    rw [mul_comm, signed_mul, mul_comm]
  obtain ⟨side, binary, rounded, nonneg, rounds, found⟩ :=
    rounding_unpackedPlace (fits_unpack number) finite
  have same : signed side (place number) = binary.value := by
    rw [place, found, unpackedPlace_unpackedSize, signed_signed]
  change RoundsTo (signed side (place number)) _ at rounds
  rw [same] at rounds
  refine ⟨side, ?_, ?_⟩ <;> rw [doubled, same]
  · have size : 0 ≤ binary.value := rounds.nonneg
    positivity
  · exact rounds.double

/-- A number that approximates an exact one is finite only if this is rounded to its place. -/
theorem Approximates.roundsSigned {number : Float} (near : Approximates exact number)
    (finite : number.isFinite = true) : RoundsSigned exact (place number) := by
  obtain ⟨-, rounded, rounds, found⟩ := near
  obtain ⟨-, above, below⟩ := isFinite_iff.mp finite
  have same : place number = rounded := by
    rw [found] at above below
    rw [found]
    obtain upper | upper := le_total rounded limit
    · rw [min_eq_left upper] at above below ⊢
      obtain lower | lower := le_total (-limit) rounded
      · exact max_eq_right lower
      · rw [max_eq_left lower] at above
        exact absurd above (lt_irrefl _)
    · rw [min_eq_right upper, max_eq_right (by linarith [limit_pos])] at below
      exact absurd below (lt_irrefl _)
  rwa [same]

/-- Half the sum of two numbers lies between them, unless the sum is infinite. -/
theorem middle_between (firstFinite : first.isFinite = true)
    (secondFinite : second.isFinite = true) (sumFinite : (first + second).isFinite = true)
    (order : first ≤ second) :
    first ≤ (first + second) / 2 ∧ (first + second) / 2 ≤ second := by
  have places := (le_iff_place.mp order).2.2
  have sum := (approximates_add firstFinite secondFinite).roundsSigned sumFinite
  have lower := (roundsSigned_double firstFinite).mono sum (by linarith)
  have upper := sum.mono (roundsSigned_double secondFinite) (by linarith)
  have two : Lasts 2 ∧ place 2 = 2 := by
    obtain ⟨lasts, size⟩ := value_ofNat (by decide : 0 < 2) (by decide)
    exact ⟨lasts, (place_of_lasts lasts).trans size⟩
  have half := approximates_div sumFinite two.1
  rw [two.2] at half
  exact ⟨(approximates_place firstFinite).mono half (by linarith),
    half.mono (approximates_place secondFinite) (by linarith)⟩

end Middle

end Rhythm.Binary
