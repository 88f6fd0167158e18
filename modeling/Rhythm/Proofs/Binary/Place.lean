import Rhythm.Proofs.Binary.Nearest
import Rhythm.Proofs.Binary.Order

/-
This file puts binary64 numbers on the line of rational numbers, with infinities right beyond the
finite numbers. The main statements are `le_iff_place` and `isFinite_iff`, that numbers are compared
by their places and that the finite ones lie between the infinities.
-/

namespace Rhythm.Binary

open Float.Model Float.Model.UnpackedFloat

/-- A size on one side of zero. -/
def signed : Sign → ℚ → ℚ
  | .positive, size => size
  | .negative, size => -size

/-- The first power of two that is too large for a word. -/
def limit : ℚ :=
  2 ^ (1024 : Int)

/-- The place of an unpacked number. Infinity comes right after the finite numbers. -/
def unpackedPlace : UnpackedFloat → ℚ
  | .notANumber => 0
  | .infinity side => signed side limit
  | .zero _ => 0
  | .finite side significand exponent _ => signed side (value ⟨significand, exponent⟩)

/-- The place of a number among the exact numbers. -/
def place (number : Float) : ℚ :=
  unpackedPlace number.toModel.unpack

/-- An unpacked number fits when its size is canonical. -/
def Fits (unpacked : UnpackedFloat) : Prop :=
  ∀ side significand exponent positive,
    unpacked = .finite side significand exponent positive → Canonical ⟨significand, exponent⟩

section Sizes

theorem limit_pos : 0 < limit := by
  unfold limit
  positivity

/-- A canonical size is what rounding gives. -/
theorem Canonical.rounded {binary : Binary} (canonical : Canonical binary) : Rounded binary :=
  ⟨canonical.below, canonical.least, canonical.normal⟩

/-- A rounded size reaches the limit when its exponent is too large for a word. -/
theorem Rounded.limit_le_iff {binary : Binary} (rounded : Rounded binary) :
    limit ≤ binary.value ↔ 971 < binary.exponent := by
  obtain ⟨below, -, normal⟩ := rounded
  constructor
  · intro reached
    by_contra small
    have below : (binary.significand : ℚ) < 2 ^ (53 : Int) := by exact_mod_cast below
    have under : binary.value < limit :=
      calc binary.value < 2 ^ (53 : Int) * 2 ^ binary.exponent :=
            mul_lt_mul_of_pos_right below (by positivity)
        _ = 2 ^ (53 + binary.exponent) := (zpow_add₀ two_ne_zero _ _).symm
        _ ≤ limit := zpow_le_zpow_right₀ one_le_two (by omega)
    exact absurd reached (not_le.mpr under)
  · intro large
    have long : (2 : ℚ) ^ (52 : Int) ≤ binary.significand := by
      exact_mod_cast normal.resolve_right (by omega)
    calc limit ≤ 2 ^ (52 + binary.exponent) := zpow_le_zpow_right₀ one_le_two (by omega)
      _ = 2 ^ (52 : Int) * 2 ^ binary.exponent := zpow_add₀ two_ne_zero _ _
      _ ≤ binary.value := mul_le_mul_of_nonneg_right long (by positivity)

theorem Canonical.value_lt_limit {binary : Binary} (canonical : Canonical binary) :
    binary.value < limit := by
  rw [← not_le, canonical.rounded.limit_le_iff]
  exact not_lt.mpr canonical.greatest

theorem Canonical.value_lt {first second : Binary} (firstCanonical : Canonical first)
    (secondCanonical : Canonical second)
    (less : first.exponent < second.exponent ∨
      first.exponent = second.exponent ∧ first.significand < second.significand) :
    first.value < second.value := by
  obtain lower | ⟨same, shorter⟩ := less
  · have below : (first.significand : ℚ) < 2 * leadingBit := by
      exact_mod_cast firstCanonical.below
    have long : (leadingBit : ℚ) ≤ second.significand := by
      have least := firstCanonical.least
      exact_mod_cast secondCanonical.normal.resolve_right (by omega)
    calc first.value < 2 * leadingBit * 2 ^ first.exponent :=
          mul_lt_mul_of_pos_right below (by positivity)
      _ = leadingBit * 2 ^ (first.exponent + 1) := by
          rw [zpow_add_one₀ two_ne_zero]
          ring
      _ ≤ leadingBit * 2 ^ second.exponent := by
          gcongr
          · exact one_le_two
          · exact lower
      _ ≤ second.value := mul_le_mul_of_nonneg_right long (by positivity)
  · have shorter : (first.significand : ℚ) < second.significand := by exact_mod_cast shorter
    rw [value, value, same]
    exact mul_lt_mul_of_pos_right shorter (by positivity)

end Sizes

section Order

variable {first second : UnpackedFloat}

theorem fits_unpack (number : Float) : Fits number.toModel.unpack := by
  intro side significand exponent positive unpacked
  obtain ⟨ordinary, size, -⟩ := unpack_eq_finite_iff.mp unpacked
  rw [← size]
  exact canonical_ofFloat ordinary (by rw [size]; exact positive)

theorem unpackedPlace_eq (same : unpackedRank first = unpackedRank second) :
    unpackedPlace first = unpackedPlace second := by
  rcases first with (_ | _) | _ | _ | ⟨(_ | _), significand, exponent, positive⟩ <;>
    rcases second with (_ | _) | _ | _ | ⟨(_ | _), significand, exponent, positive⟩ <;>
    simp_all [unpackedRank, unpackedPlace]

/-- Each kind of number has a stretch of its own on the line. -/
inductive Stretch : Int → ℚ → Prop where
  | first : Stretch (-2) (-limit)
  | below {place : ℚ} (lower : -limit < place) (upper : place < 0) : Stretch (-1) place
  | zero : Stretch 0 0
  | above {place : ℚ} (lower : 0 < place) (upper : place < limit) : Stretch 1 place
  | last : Stretch 2 limit

/-- The stretches lie one after the other. -/
theorem Stretch.lt {kind other : Int} {near far : ℚ} (nearStretch : Stretch kind near)
    (farStretch : Stretch other far) (less : kind < other) : near < far := by
  have positive := limit_pos
  cases nearStretch <;> cases farStretch <;> first | omega | linarith

theorem Stretch.le_limit {kind : Int} {place : ℚ} (stretch : Stretch kind place) :
    place ≤ limit := by
  have positive := limit_pos
  cases stretch <;> linarith

/-- The place of a number lies in the stretch of its kind. -/
theorem stretch_unpackedPlace {unpacked : UnpackedFloat} (fits : Fits unpacked) :
    Stretch (ofLex (unpackedRank unpacked)).1 (unpackedPlace unpacked) := by
  cases unpacked with
  | notANumber => exact .zero
  | infinity side =>
      cases side with
      | negative => exact .first
      | positive => exact .last
  | zero side => exact .zero
  | finite side significand exponent filled =>
      have positive : 0 < value ⟨significand, exponent⟩ := value_pos filled
      have below := (fits side significand exponent filled rfl).value_lt_limit
      cases side with
      | negative => exact .below (neg_lt_neg below) (neg_lt_zero.mpr positive)
      | positive => exact .above positive below

/-- Numbers of one kind that differ in rank are finite, and on the same side of zero. -/
theorem exists_finite_of_kind_eq (different : unpackedRank first ≠ unpackedRank second)
    (same : (ofLex (unpackedRank first)).1 = (ofLex (unpackedRank second)).1) :
    ∃ side significand exponent positive otherSignificand otherExponent otherPositive,
      first = .finite side significand exponent positive ∧
        second = .finite side otherSignificand otherExponent otherPositive := by
  rcases first with (_ | _) | _ | _ | ⟨(_ | _), significand, exponent, positive⟩ <;>
    rcases second with (_ | _) | _ | _ | ⟨(_ | _), significand, exponent, positive⟩ <;>
    simp_all [unpackedRank]

/-- A number of a lower rank has a lower place. -/
theorem unpackedPlace_lt (firstFits : Fits first) (secondFits : Fits second)
    (less : unpackedRank first < unpackedRank second) :
    unpackedPlace first < unpackedPlace second := by
  obtain kinds | ⟨same, rest⟩ := Prod.Lex.lt_iff.mp less
  · exact (stretch_unpackedPlace firstFits).lt (stretch_unpackedPlace secondFits) kinds
  · obtain ⟨side, significand, exponent, positive, otherSignificand, otherExponent, otherPositive,
      rfl, rfl⟩ := exists_finite_of_kind_eq less.ne same
    have firstCanonical := firstFits side significand exponent positive rfl
    have secondCanonical := secondFits side otherSignificand otherExponent otherPositive rfl
    cases side with
    | positive =>
        refine firstCanonical.value_lt secondCanonical ?_
        simpa [unpackedRank, Prod.Lex.toLex_lt_toLex] using rest
    | negative =>
        refine neg_lt_neg (secondCanonical.value_lt firstCanonical ?_)
        simpa [unpackedRank, Prod.Lex.toLex_lt_toLex, eq_comm] using rest

/-- Numbers are ranked by their places. -/
theorem rank_le_iff {first second : Float} :
    rank first ≤ rank second ↔ place first ≤ place second := by
  constructor
  · intro order
    obtain same | less := order.eq_or_lt
    · exact (unpackedPlace_eq same).le
    · exact (unpackedPlace_lt (fits_unpack first) (fits_unpack second) less).le
  · intro order
    by_contra reversed
    have less := unpackedPlace_lt (fits_unpack second) (fits_unpack first) (not_le.mp reversed)
    exact absurd order (not_le.mpr less)

theorem le_iff_place {first second : Float} :
    first ≤ second ↔ first.toModel.unpack ≠ .notANumber ∧
      second.toModel.unpack ≠ .notANumber ∧ place first ≤ place second := by
  rw [le_iff_rank, rank_le_iff]

theorem lt_iff_place {first second : Float} :
    first < second ↔ first.toModel.unpack ≠ .notANumber ∧
      second.toModel.unpack ≠ .notANumber ∧ place first < place second := by
  rw [lt_iff_rank, lt_iff_lt_of_le_iff_le rank_le_iff]

end Order

section Numbers

variable {number : Float}

theorem fits_neg {unpacked : UnpackedFloat} (fits : Fits unpacked) : Fits unpacked.neg := by
  cases unpacked with
  | finite side significand exponent positive =>
      intro other otherSignificand otherExponent otherPositive same
      cases same
      exact fits side significand exponent positive rfl
  | _ => exact nofun

/-- An unpacked number that fits is kept by a word. -/
theorem unpack_pack_of_fits {unpacked : UnpackedFloat} (fits : Fits unpacked) :
    (Float.Model.pack unpacked).unpack = unpacked := by
  cases unpacked with
  | notANumber => rfl
  | infinity side => cases side <;> rfl
  | zero side => cases side <;> rfl
  | finite side significand exponent positive =>
      exact unpack_pack (fits side significand exponent positive rfl) positive

/-- A number is packed from what it unpacks to. -/
theorem eq_pack_unpack (number : Float) :
    number.toModel = Float.Model.pack number.toModel.unpack := by
  have same : number = Float.ofModel (Float.Model.pack number.toModel.unpack) :=
    unpack_injective (unpack_pack_of_fits (fits_unpack number)).symm
  exact congrArg Float.toModel same

theorem unpack_neg (number : Float) : (-number).toModel.unpack = number.toModel.unpack.neg :=
  unpack_pack_of_fits (fits_neg (fits_unpack number))

theorem place_zero : place 0 = 0 :=
  rfl

theorem signed_neg (side : Sign) (size : ℚ) : signed (-side) size = -signed side size := by
  cases side with
  | negative => exact (neg_neg size).symm
  | positive => rfl

theorem place_neg (number : Float) : place (-number) = -place number := by
  rw [place, unpack_neg, place]
  cases number.toModel.unpack with
  | notANumber => exact neg_zero.symm
  | zero side => exact neg_zero.symm
  | infinity side => exact signed_neg side _
  | finite side => exact signed_neg side _

/-- The finite numbers are those with places between the limits. -/
theorem isFinite_iff : number.isFinite = true ↔
    number.toModel.unpack ≠ .notANumber ∧ -limit < place number ∧ place number < limit := by
  have positive := limit_pos
  have fits := fits_unpack number
  change number.toModel.unpack.isFinite = true ↔ _ ∧ -limit < unpackedPlace _ ∧
    unpackedPlace _ < limit
  cases unpacked : number.toModel.unpack with
  | notANumber => simp [UnpackedFloat.isFinite]
  | infinity side => cases side <;> simp [UnpackedFloat.isFinite, unpackedPlace, signed]
  | zero side => simpa [UnpackedFloat.isFinite, unpackedPlace] using positive
  | finite side significand exponent filled =>
      have size : 0 < value ⟨significand, exponent⟩ := value_pos filled
      have below := (fits side significand exponent filled unpacked).value_lt_limit
      refine iff_of_true rfl ⟨by simp, ?_⟩
      cases side <;> simp only [unpackedPlace, signed] <;> constructor <;> linarith

theorem number_le_refl (defined : number.toModel.unpack ≠ .notANumber) : number ≤ number :=
  le_iff_place.mpr ⟨defined, defined, le_rfl⟩

theorem neg_finite (finite : number.isFinite = true) : (-number).isFinite = true := by
  change (-number).toModel.unpack.isFinite = true
  change number.toModel.unpack.isFinite = true at finite
  rw [unpack_neg]
  cases unpacked : number.toModel.unpack <;> rw [unpacked] at finite <;>
    first | rfl | cases finite

end Numbers

end Rhythm.Binary
