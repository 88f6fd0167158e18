import Rhythm.Proofs.Binary.Range
import Rhythm.Proofs.Score.Invariant

/-
This file says which scale a tuplet has and which meters it fits. The main statement is
`Tuplet.fits_exact`, that an even tuplet only fits meters of the kind that it was made for.
-/

namespace Rhythm

open Binary Outcome

/-- The real beats that all divisions of a tuplet fill together. -/
def filledBeats (compound : Bool) (divisions : UInt32) : Nat :=
  if compound = true ∧ divisions.toNat % 2 = 0 then 3 else 2 ^ divisions.toNat.log2

section Scale

variable {divisions dividend divisor : UInt32} {first second : ℚ}

theorem toNat_pos (positive : 0 < divisions) : 0 < divisions.toNat :=
  UInt32.lt_iff_toNat_lt.mp positive

/-- The largest power of two up to a word is a word, and the next one exceeds it. -/
theorem floorPower_bounds (positive : 0 < divisions) :
    (floorPower divisions).toNat = 2 ^ divisions.toNat.log2 ∧
      2 ^ divisions.toNat.log2 ≤ divisions.toNat ∧
      divisions.toNat < 2 * 2 ^ divisions.toNat.log2 := by
  have lower := Nat.log2_self_le (toNat_pos positive).ne'
  have word : Nat.pow 2 divisions.toNat.log2 < 2 ^ 32 := lower.trans_lt divisions.toNat_lt
  refine ⟨UInt32.toNat_ofNat_of_lt' word, lower, ?_⟩
  rw [← Nat.pow_succ']
  exact Nat.lt_log2_self

/-- A word has fewer than 32 places below its leading one. -/
theorem log2_lt (positive : 0 < divisions) : divisions.toNat.log2 < 32 :=
  (Nat.log2_lt (toNat_pos positive).ne').mpr divisions.toNat_lt

/-- A quotient of words is the rounded one. -/
theorem rounds_div_toFloat (dividendPositive : 0 < dividend) (divisorPositive : 0 < divisor) :
    Rounds (dividend.toNat / divisor.toNat) (dividend.toFloat / divisor.toFloat) := by
  have least : (1 : ℚ) ≤ divisor.toNat := by exact_mod_cast toNat_pos divisorPositive
  have bound : (dividend.toNat : ℚ) / divisor.toNat ≤ most.value :=
    (div_le_self (Nat.cast_nonneg _) least).trans
      (natCast_le_most (dividend.toNat_lt.trans (by decide)))
  rw [← value_toFloat dividendPositive, ← value_toFloat divisorPositive] at bound ⊢
  exact rounds_div (.inr (lasts_toFloat dividendPositive)) (lasts_toFloat divisorPositive) bound

/-- The scale of a tuplet is three or a power of two over its number of divisions. -/
theorem tupletScale_eq (compound : Bool) (divisions : UInt32) :
    tupletScale compound divisions =
      (if compound = true ∧ divisions.toNat % 2 = 0 then 3 else (floorPower divisions).toFloat) /
        divisions.toFloat := by
  have even : (divisions % 2 == 0) = decide (divisions.toNat % 2 = 0) := by
    rw [Bool.eq_iff_iff, beq_iff_eq, decide_eq_true_iff, ← UInt32.toNat_inj]
    rfl
  unfold tupletScale
  rw [even]
  by_cases triple : compound = true ∧ divisions.toNat % 2 = 0
  · rw [if_pos triple, if_pos (by simpa using triple)]
  · rw [if_neg triple, if_neg (by simpa using triple)]

theorem filledBeats_simple (divisions : UInt32) :
    filledBeats false divisions = 2 ^ divisions.toNat.log2 :=
  if_neg (by simp)

/-- The scale of a tuplet is the rounded quotient of the beats that it fills and its divisions. -/
theorem rounds_tupletScale (compound : Bool) (positive : 0 < divisions) :
    Rounds (filledBeats compound divisions / divisions.toNat)
      (tupletScale compound divisions) := by
  rw [tupletScale_eq, filledBeats]
  split
  · have three : (3 : Float) = (3 : UInt32).toFloat := by decide
    rw [three]
    exact @rounds_div_toFloat 3 divisions (by decide) positive
  · rw [← (floorPower_bounds positive).1]
    exact rounds_div_toFloat (floorPower_pos positive) positive

/-- Fractions of small numbers that have the same denominator are rounded apart. -/
theorem rounded_lt_of_lt {upper lower common : Nat} (small : upper < 2 ^ 40) (less : lower < upper)
    (positive : 0 < common) (commonSmall : common < 2 ^ 40)
    (firstRounds : RoundsTo ((lower : ℚ) / common) first)
    (secondRounds : RoundsTo ((upper : ℚ) / common) second) : first < second := by
  have scale : (0 : ℚ) < common := by exact_mod_cast positive
  have step : ((lower : ℚ) + 1) / common ≤ upper / common := by
    gcongr
    exact_mod_cast less
  have most : (upper : ℚ) / common ≤ 2 ^ 40 * (1 / common) := by
    rw [mul_one_div]
    gcongr
    exact_mod_cast small.le
  have part : (2 ^ (-40 : Int) : ℚ) < 1 / common := by
    rw [zpow_neg, ← one_div]
    exact one_div_lt_one_div_of_lt scale (by exact_mod_cast commonSmall)
  have firstError := abs_le.mp (firstRounds.error (by positivity))
  have secondError := abs_le.mp (secondRounds.error (by positivity))
  have tiny : (2 : ℚ) ^ (-1075 : Int) ≤ 2 ^ (-60 : Int) :=
    zpow_le_zpow_right₀ one_le_two (by decide)
  rw [add_div] at step
  generalize (2 : ℚ) ^ (-1075 : Int) = least at firstError secondError tiny
  generalize (1 : ℚ) / common = unit at step most part
  norm_num at firstError secondError tiny part most
  linarith

/-- An even number of divisions has different scales in compound and in other meters. -/
theorem tupletScale_ne (positive : 0 < divisions) (even : divisions.toNat % 2 = 0) :
    tupletScale true divisions ≠ tupletScale false divisions := by
  have small : 2 ^ divisions.toNat.log2 < 2 ^ 40 :=
    Nat.pow_lt_pow_right (by decide) ((log2_lt positive).trans (by decide))
  have commonSmall : divisions.toNat < 2 ^ 40 := divisions.toNat_lt.trans (by decide)
  have compound := (rounds_tupletScale true positive).rounds
  have simple := (rounds_tupletScale false positive).rounds
  have three : filledBeats true divisions = 3 := if_pos ⟨rfl, even⟩
  intro same
  rw [three] at compound
  rw [filledBeats_simple, ← same] at simple
  obtain less | equal | more := lt_trichotomy (2 ^ divisions.toNat.log2) 3
  · exact absurd (rounded_lt_of_lt (by decide) less (toNat_pos positive) commonSmall simple
      compound) (lt_irrefl _)
  · generalize divisions.toNat.log2 = places at equal
    cases places with
    | zero => omega
    | succ places =>
        rw [Nat.pow_succ] at equal
        omega
  · exact absurd (rounded_lt_of_lt small more (toNat_pos positive) commonSmall compound
      simple) (lt_irrefl _)

/-- Two meters give a tuplet the same scale when its number of divisions is odd or when both meters
are compound or neither is. -/
theorem tupletScale_eq_iff (positive : 0 < divisions) {own other : Bool} :
    tupletScale own divisions = tupletScale other divisions ↔
      divisions.toNat % 2 = 1 ∨ own = other := by
  obtain even | odd := Nat.mod_two_eq_zero_or_one divisions.toNat
  · have apart := tupletScale_ne positive even
    cases own <;> cases other <;> simp [even, apart, apart.symm]
  · simp [tupletScale_eq, odd]

end Scale

section Check

variable {meter : Meter} {before after : List Element} {tuplet : Tuplet}

/-- The check of tuplets passes when all of them fit. -/
theorem checkTuplets_eq_ok_iff {elements : List Element} :
    (∃ fit, checkTuplets meter elements = .ok fit) ↔ AllFit meter elements := by
  constructor
  · intro passed
    obtain ⟨⟨fit⟩, -⟩ := passed
    exact fit
  · intro fit
    exact ⟨_, checkTuplets_of_allFit fit⟩

/-- A tuplet and the elements around it fit a meter one by one. -/
theorem allFit_append_cons : AllFit meter (before ++ .group tuplet :: after) ↔
    AllFit meter before ∧ tuplet.fits meter = true ∧ AllFit meter after := by
  rw [allFit_iff, allFit_iff, allFit_iff, List.forall_mem_append, List.forall_mem_cons,
    Tuplet.fits_iff]
  rfl

/-- The first tuplet that does not fit is reported. -/
theorem checkTuplets_of_stray (fit : AllFit meter before) (stray : tuplet.fits meter = false) :
    checkTuplets meter (before ++ .group tuplet :: after) =
      .error (.strayTuplet tuplet.divisions tuplet.scale meter
        (tupletScale meter.isCompound tuplet.divisions)) := by
  induction before with
  | nil =>
      rw [List.nil_append, checkTuplets, Fault.require_of_fails (by simp [stray])]
      rfl
  | cons element rest inductionHypothesis =>
      have later := inductionHypothesis fun other member =>
        fit other (List.mem_cons_of_mem _ member)
      cases element with
      | single event =>
          rw [List.cons_append, checkTuplets, later]
          rfl
      | group other =>
          rw [List.cons_append, checkTuplets, later,
            Fault.require_of_holds (fit other List.mem_cons_self)]
          rfl

/-- A measure is refused for its first tuplet that does not fit, whatever its groups are. -/
theorem Measure.of_of_stray (playable : meter.Playable) (fit : AllFit meter before)
    (stray : tuplet.fits meter = false) (grouping? : Option (List UInt32)) :
    Measure.of (before ++ .group tuplet :: after) meter grouping? =
      .error (.strayTuplet tuplet.divisions tuplet.scale meter
        (tupletScale meter.isCompound tuplet.divisions)) := by
  have filled : before ++ .group tuplet :: after ≠ [] := by simp
  rw [Measure.of, Meter.check_of_playable playable, Fault.require_of_holds filled,
    checkTuplets_of_stray fit stray]
  rfl

end Check

section Fit

variable {divisions : UInt32} {events : List Event}

/-- Any positive number of divisions and any events make up a tuplet for any meter, whose scale is
the rounded quotient of the beats that it fills and its divisions. It passes the check of a meter
at any place among other elements if they do, and if its number of divisions is odd or both meters
are compound or neither is. Otherwise the meter refuses it and says which scale it expects. -/
theorem Tuplet.fits_exact (positive : 0 < divisions) (nonempty : events ≠ []) (own : Meter) :
    ∃ tuplet, Tuplet.of divisions (events.map .single) own = .ok tuplet ∧
      tuplet.divisions = divisions ∧ tuplet.events = events ∧
      (divisions.toNat.log2 < 32 ∧ (floorPower divisions).toNat = 2 ^ divisions.toNat.log2 ∧
        (floorPower divisions).toNat ≤ divisions.toNat ∧
        divisions.toNat < 2 * (floorPower divisions).toNat) ∧
      tuplet.scale = (if own.isCompound = true ∧ divisions.toNat % 2 = 0 then 3
        else (floorPower divisions).toFloat) / divisions.toFloat ∧
      Rounds (filledBeats own.isCompound divisions / divisions.toNat) tuplet.scale ∧
      ∀ meter before after,
        ((∃ fit, checkTuplets meter (before ++ .group tuplet :: after) = .ok fit) ↔
          AllFit meter before ∧
            (divisions.toNat % 2 = 1 ∨ own.isCompound = meter.isCompound) ∧
              AllFit meter after) ∧
        (meter.Playable → AllFit meter before →
          ¬ (divisions.toNat % 2 = 1 ∨ own.isCompound = meter.isCompound) → ∀ grouping?,
            Measure.of (before ++ .group tuplet :: after) meter grouping? =
              .error (.strayTuplet divisions tuplet.scale meter
                (tupletScale meter.isCompound divisions))) := by
  obtain ⟨word, lower, upper⟩ := floorPower_bounds positive
  let tuplet : Tuplet := ⟨divisions, events, tupletScale own.isCompound divisions, positive,
    nonempty, ⟨own.isCompound, rfl⟩⟩
  refine ⟨tuplet, Tuplet.of_eq_ok_iff.mpr ⟨rfl, rfl, rfl⟩, rfl, rfl,
    ⟨log2_lt positive, word, word ▸ lower, word ▸ upper⟩, tupletScale_eq _ _,
    rounds_tupletScale _ positive, ?_⟩
  intro meter before after
  have fits : tuplet.fits meter = true ↔
      divisions.toNat % 2 = 1 ∨ own.isCompound = meter.isCompound :=
    Tuplet.fits_iff.trans (tupletScale_eq_iff positive)
  constructor
  · rw [checkTuplets_eq_ok_iff, allFit_append_cons, fits]
  · intro playable fit other grouping?
    exact Measure.of_of_stray playable fit ((Bool.not_eq_true _).mp (fits.not.mpr other)) grouping?

/-- A tuplet of the largest even number of divisions, made for a meter of no eighths, fits three
eighths but not four quarters. -/
theorem Tuplet.fits_exact_largest :
    0 < (4294967294 : UInt32) ∧ [Event.rest ⟨⟨1, by decide⟩⟩] ≠ [] ∧
      ∃ tuplet, Tuplet.of 4294967294 [.single (.rest ⟨⟨1, by decide⟩⟩)] ⟨0, 8⟩ = .ok tuplet ∧
        (∃ fit, checkTuplets ⟨3, 8⟩ [.group tuplet] = .ok fit) ∧
        ∀ grouping?, Measure.of [.group tuplet] .common grouping? =
          .error (.strayTuplet 4294967294 tuplet.scale .common
            (tupletScale false 4294967294)) := by
  have compound : (⟨0, 8⟩ : Meter).isCompound = (⟨3, 8⟩ : Meter).isCompound := by decide
  have other : ¬ ((4294967294 : UInt32).toNat % 2 = 1 ∨
      (⟨0, 8⟩ : Meter).isCompound = Meter.common.isCompound) := by decide
  have playable : Meter.common.Playable := ⟨by decide, by decide, by decide⟩
  have none_fit (meter : Meter) : AllFit meter [] := by simp [AllFit]
  obtain ⟨tuplet, made, -, -, -, -, -, fits⟩ :=
    @Tuplet.fits_exact 4294967294 [.rest ⟨⟨1, by decide⟩⟩] (by decide) (by simp) ⟨0, 8⟩
  refine ⟨by decide, by simp, tuplet, made, ?_, ?_⟩
  · exact (fits ⟨3, 8⟩ [] []).1.mpr ⟨none_fit _, .inr compound, none_fit _⟩
  · exact (fits .common [] []).2 playable (none_fit _) other

end Fit

end Rhythm
