import Rhythm.Proofs.Score.Fit
import Rhythm.Proofs.Timing.Order

/-
This file says which elements of a score last. The main statement is `Score.lasting_exact`, that
notes and rests do, and tuplets as far as their real beats are in the range of a word.
-/

namespace Rhythm

open Binary

section Scale

variable {divisions : UInt32}

/-- Only an even number of divisions has a scale of its own in compound meters. -/
theorem tupletScale_eq_simple (positive : 0 < divisions) {compound : Bool}
    (simple : ¬ (compound = true ∧ divisions.toNat % 2 = 0)) :
    tupletScale compound divisions = tupletScale false divisions := by
  rw [tupletScale_eq_iff positive]
  cases compound with
  | false => exact .inr rfl
  | true => exact .inl (by simpa using simple)

/-- The scale of a power of two over a number of divisions is above a half and at most one. -/
theorem value_tupletScale_simple (positive : 0 < divisions) :
    1 / 2 < (ofFloat (tupletScale false divisions)).value ∧
      (ofFloat (tupletScale false divisions)).value ≤ 1 := by
  obtain ⟨-, lower, upper⟩ := floorPower_bounds positive
  have word := divisions.toNat_lt
  have natural := toNat_pos positive
  have scale : (0 : ℚ) < divisions.toNat := by exact_mod_cast natural
  have rounds := (rounds_tupletScale false positive).rounds
  rw [filledBeats_simple] at rounds
  generalize 2 ^ divisions.toNat.log2 = filled at lower upper rounds
  constructor
  · have half : RoundsTo ((divisions.toNat : ℚ) / (2 * divisions.toNat : Nat)) (1 / 2) := by
      have same : (divisions.toNat : ℚ) / (2 * divisions.toNat : Nat) = 2 ^ (-1 : Int) := by
        push_cast
        field_simp
      rw [same, show (1 / 2 : ℚ) = 2 ^ (-1 : Int) by norm_num]
      exact roundsTo_twoPow (by decide) (by decide)
    have doubled : (filled : ℚ) / divisions.toNat =
        (2 * filled : Nat) / (2 * divisions.toNat : Nat) := by
      push_cast
      rw [mul_div_mul_left _ _ two_ne_zero]
    rw [doubled] at rounds
    exact rounded_lt_of_lt (by omega) upper (by omega) (by omega) half rounds
  · refine rounds.mono roundsTo_one ?_
    rw [div_le_one scale]
    exact_mod_cast lower

/-- Any scale is at least two to the minus thirty-one and at most two. -/
theorem value_tupletScale (compound : Bool) (positive : 0 < divisions) :
    2 ^ (-31 : Int) ≤ (ofFloat (tupletScale compound divisions)).value ∧
      (ofFloat (tupletScale compound divisions)).value ≤ 2 := by
  have natural := toNat_pos positive
  have scale : (0 : ℚ) < divisions.toNat := by exact_mod_cast natural
  by_cases triple : compound = true ∧ divisions.toNat % 2 = 0
  · have rounds := (rounds_tupletScale compound positive).rounds
    have three : filledBeats compound divisions = 3 := if_pos triple
    rw [three] at rounds
    have least : (2 : ℚ) ≤ divisions.toNat := by
      exact_mod_cast (by omega : 2 ≤ divisions.toNat)
    have greatest : (divisions.toNat : ℚ) ≤ 2 ^ 32 := by exact_mod_cast divisions.toNat_lt.le
    constructor
    · refine (roundsTo_twoPow (by decide) (by decide)).mono rounds ?_
      rw [le_div_iff₀ scale]
      norm_num
      linarith
    · have two : RoundsTo 2 2 := by exact_mod_cast roundsTo_natural (by decide : 2 < 2 ^ 53)
      refine rounds.mono two ?_
      rw [div_le_iff₀ scale]
      norm_num
      linarith
  · rw [tupletScale_eq_simple positive triple]
    obtain ⟨lower, upper⟩ := value_tupletScale_simple positive
    constructor
    · norm_num at lower ⊢
      linarith
    · linarith

end Scale

section Tuplets

variable {tuplet : Tuplet} {event : Event} {meter : Meter}

/-- The beats of a tuplet as written. -/
def Tuplet.written (tuplet : Tuplet) : Float :=
  totalBeats (tuplet.events.map Event.beats)

/-- A tuplet and each of its events take a positive finite number of real beats. -/
structure Tuplet.Lasting (tuplet : Tuplet) : Prop where
  whole : Lasts tuplet.beats
  parts : ∀ index beats, tuplet.realBeats? index = some beats → Lasts beats

/-- An event of a tuplet lasts if and only if its exact real beats are in range. -/
theorem Tuplet.lasts_real_iff (tuplet : Tuplet) (event : Event) :
    Lasts (event.beats * tuplet.scale) ↔
      InRange ((ofFloat event.beats).value * (ofFloat tuplet.scale).value) :=
  lasts_mul_iff event.beats_lasts tuplet.lasts_scale

theorem Tuplet.beats_le_written (member : event ∈ tuplet.events) : event.beats ≤ tuplet.written :=
  (Amount.le_foldl_add Amount.zero tuplet.amount_events).2 _ (List.mem_map_of_mem member)

/-- The written beats of a tuplet last unless they are infinite. -/
theorem Tuplet.lasts_written_iff (tuplet : Tuplet) :
    Lasts tuplet.written ↔ tuplet.written.isFinite = true :=
  and_iff_right (number_lt_of_lt_of_le tuplet.first.beats_lasts.1
    (Tuplet.beats_le_written (List.head_mem tuplet.events_ne)))

/-- A tuplet lasts if and only if its written beats are finite and its exact real beats are in
range. -/
theorem Tuplet.lasts_beats_iff (tuplet : Tuplet) : Lasts tuplet.beats ↔
    tuplet.written.isFinite = true ∧
      InRange ((ofFloat tuplet.written).value * (ofFloat tuplet.scale).value) := by
  have amount : Amount tuplet.written := Amount.foldl_add Amount.zero tuplet.amount_events
  obtain finite | infinite := amount.grounded.finite_or_infinite
  · rw [and_iff_right finite]
    exact lasts_mul_iff (tuplet.lasts_written_iff.mpr finite) tuplet.lasts_scale
  · have unbounded {number : Float} (infinite : number.toModel.unpack = .infinity .positive) :
        ¬ number.isFinite = true := by
      change ¬ number.toModel.unpack.isFinite = true
      rw [infinite]
      exact Bool.false_ne_true
    have product : tuplet.beats.toModel.unpack = .infinity .positive :=
      Amount.mul_infinite infinite tuplet.lasts_scale
    exact iff_of_false (fun lasts => unbounded product lasts.2)
      (fun both => unbounded infinite both.1)

/-- The scale of a tuplet in a meter that does not divide beats by three keeps numbers in range. -/
theorem Tuplet.inRange_scale (fits : tuplet.fits meter = true)
    (simple : ¬ (meter.isCompound = true ∧ tuplet.divisions.toNat % 2 = 0)) {number : Float}
    (lasts : Lasts number) : InRange ((ofFloat number).value * (ofFloat tuplet.scale).value) := by
  rw [Tuplet.fits_iff.mp fits, tupletScale_eq_simple tuplet.divisions_pos simple]
  obtain ⟨lower, upper⟩ := value_tupletScale_simple tuplet.divisions_pos
  exact inRange_mul lasts lower upper

/-- Numbers that keep away from the ends of the range stay in it under any scale. -/
theorem Tuplet.inRange_of_moderate (tuplet : Tuplet) {number : ℚ}
    (lower : 2 ^ (-1043 : Int) ≤ number) (upper : number ≤ 2 ^ (1022 : Int)) :
    InRange (number * (ofFloat tuplet.scale).value) := by
  obtain ⟨compound, scaled⟩ := tuplet.scale_eq
  obtain ⟨least, greatest⟩ := @value_tupletScale _ compound tuplet.divisions_pos
  rw [← scaled] at least greatest
  have positive : (0 : ℚ) < 2 ^ (-1043 : Int) := by positivity
  constructor
  · calc (2 : ℚ) ^ (-1075 : Int) < 2 ^ (-1074 : Int) := zpow_lt_zpow_right₀ one_lt_two (by decide)
      _ = 2 ^ (-1043 : Int) * 2 ^ (-31 : Int) := by
          rw [← zpow_add₀ two_ne_zero]
          rfl
      _ ≤ number * (ofFloat tuplet.scale).value :=
          mul_le_mul lower least (by positivity) (positive.le.trans lower)
  · calc number * (ofFloat tuplet.scale).value ≤ 2 ^ (1022 : Int) * 2 :=
          mul_le_mul upper greatest (value_pos_of_lasts tuplet.lasts_scale).le (by positivity)
      _ = 2 ^ (1023 : Int) := (zpow_add_one₀ two_ne_zero _).symm
      _ < limit - 2 ^ (970 : Int) := two_pow_lt_middle

/-- A tuplet in a meter that does not divide beats by three lasts if and only if its written beats
are finite. -/
theorem Tuplet.lasting_iff_of_simple (tuplet : Tuplet) (fits : tuplet.fits meter = true)
    (simple : ¬ (meter.isCompound = true ∧ tuplet.divisions.toNat % 2 = 0)) :
    (∀ index beats, tuplet.realBeats? index = some beats → Lasts beats) ∧
      (tuplet.Lasting ↔ tuplet.written.isFinite = true) := by
  have parts (index : Nat) (beats : Float) (real : tuplet.realBeats? index = some beats) :
      Lasts beats := by
    obtain ⟨event, -, rfl⟩ := Option.map_eq_some_iff.mp real
    exact (tuplet.lasts_real_iff event).mpr (Tuplet.inRange_scale fits simple event.beats_lasts)
  refine ⟨parts, fun lasting => (tuplet.lasts_beats_iff.mp lasting.whole).1, fun finite => ?_⟩
  have written := tuplet.lasts_written_iff.mpr finite
  exact ⟨tuplet.lasts_beats_iff.mpr ⟨finite, Tuplet.inRange_scale fits simple written⟩, parts⟩

/-- A tuplet lasts in any meter if its written beats keep away from the ends of the range. -/
theorem Tuplet.lasting_of_moderate (tuplet : Tuplet)
    (lower : ∀ event ∈ tuplet.events, 2 ^ (-1043 : Int) ≤ (ofFloat event.beats).value)
    (finite : tuplet.written.isFinite = true)
    (upper : (ofFloat tuplet.written).value ≤ 2 ^ (1022 : Int)) : tuplet.Lasting := by
  have lasts := tuplet.lasts_written_iff.mpr finite
  have below (event : Event) (member : event ∈ tuplet.events) :
      (ofFloat event.beats).value ≤ (ofFloat tuplet.written).value := by
    rw [← place_of_lasts event.beats_lasts, ← place_of_lasts lasts]
    exact (le_iff_place.mp (Tuplet.beats_le_written member)).2.2
  have first := List.head_mem tuplet.events_ne
  have least := (lower _ first).trans (below _ first)
  refine ⟨tuplet.lasts_beats_iff.mpr ⟨finite, tuplet.inRange_of_moderate least upper⟩, ?_⟩
  intro index beats real
  obtain ⟨event, found, rfl⟩ := Option.map_eq_some_iff.mp real
  have member := List.mem_of_getElem? found
  exact (tuplet.lasts_real_iff event).mpr
    (tuplet.inRange_of_moderate (lower event member) ((below event member).trans upper))

/-- A tuplet may be too short to last. -/
theorem Tuplet.not_lasting : ¬ ∀ (divisions : UInt32) (elements : List Element) (meter : Meter)
    (tuplet : Tuplet), Tuplet.of divisions elements meter = .ok tuplet → tuplet.Lasting := by
  intro lasting
  let faint : Event := .note ⟨⟨Float.ofBits 1, by decide⟩, .middleC, false, false⟩
  let tuplet : Tuplet := ⟨6, [faint], tupletScale true 6, by decide, by simp, ⟨true, rfl⟩⟩
  have made : Tuplet.of 6 ([faint].map .single) ⟨6, 8⟩ = .ok tuplet :=
    Tuplet.of_eq_ok_iff.mpr ⟨rfl, rfl, rfl⟩
  have whole := (lasting 6 [.single faint] ⟨6, 8⟩ tuplet made).whole
  exact absurd whole (by decide)

end Tuplets

section Leaves

variable {score : Score} {leaf : Leaf}

/-- A leaf of a score lasts unless a tuplet of an even number of divisions in a compound meter makes
it too short. -/
theorem Score.lasts_or_faint (member : leaf ∈ score.leaves) : Lasts leaf.beats ∨
    ∃ measure ∈ score, measure.meter.isCompound = true ∧
      ∃ tuplet, Element.group tuplet ∈ measure.elements ∧ tuplet.divisions.toNat % 2 = 0 ∧
        leaf.event ∈ tuplet.events ∧
          (ofFloat leaf.event.beats).value * (ofFloat tuplet.scale).value ≤ 2 ^ (-1075 : Int) := by
  have finite := (Score.finite_of_mem_leaves member).2
  obtain ⟨⟨element, index⟩, chosen, inside⟩ := List.mem_flatMap.mp member
  have found := List.mem_of_getElem? (List.mem_zipIdx_iff_getElem?.mp chosen)
  obtain ⟨measure, chosenMeasure, own⟩ := List.mem_flatMap.mp found
  cases element with
  | single event =>
      rw [List.mem_singleton.mp inside]
      exact .inl event.beats_lasts
  | group tuplet =>
      obtain ⟨⟨event, inner⟩, entry, rfl⟩ := List.mem_map.mp inside
      have part := List.mem_of_getElem? (List.mem_zipIdx_iff_getElem?.mp entry)
      by_cases triple : measure.meter.isCompound = true ∧ tuplet.divisions.toNat % 2 = 0
      · obtain lasts | tiny := lasts_mul_or_le event.beats_lasts tuplet.lasts_scale finite
        · exact .inl lasts
        · exact .inr ⟨measure, chosenMeasure, triple.1, tuplet, own, triple.2, part, tiny⟩
      · have fits := measure.wellformed.allFit tuplet own
        exact .inl ((tuplet.lasts_real_iff event).mpr
          (Tuplet.inRange_scale fits triple event.beats_lasts))

/-- Notes and rests last. An event of a tuplet lasts if and only if its exact real beats are in
range, and the tuplet does if and only if its written beats are finite and their exact real beats
are in range. A tuplet that does not put an even number of divisions into a compound meter is only
too long if its written beats are infinite, and never too short. Any tuplet lasts when its written
beats are neither tiny nor huge. All leaves of a score are finite, and only those in an even
tuplet of a compound meter may be too short to last. -/
theorem Score.lasting_exact (event : Event) (tuplet : Tuplet) (score : Score) :
    Lasts (Element.single event).beats ∧
    (∀ index own, tuplet.events[index]? = some own →
      ∃ beats, tuplet.realBeats? index = some beats ∧
        (Lasts beats ↔ InRange ((ofFloat own.beats).value * (ofFloat tuplet.scale).value))) ∧
    (Lasts (Element.group tuplet).beats ↔ tuplet.written.isFinite = true ∧
      InRange ((ofFloat tuplet.written).value * (ofFloat tuplet.scale).value)) ∧
    (∀ meter : Meter, tuplet.fits meter = true →
      ¬ (meter.isCompound = true ∧ tuplet.divisions.toNat % 2 = 0) →
        (∀ index beats, tuplet.realBeats? index = some beats → Lasts beats) ∧
          (tuplet.Lasting ↔ tuplet.written.isFinite = true)) ∧
    ((∀ own ∈ tuplet.events, 2 ^ (-1043 : Int) ≤ (ofFloat own.beats).value) →
      tuplet.written.isFinite = true → (ofFloat tuplet.written).value ≤ 2 ^ (1022 : Int) →
        tuplet.Lasting) ∧
    ∀ leaf ∈ score.leaves, leaf.beats.isFinite = true ∧ (Lasts leaf.beats ∨
      ∃ measure ∈ score, measure.meter.isCompound = true ∧
        ∃ tuplet, Element.group tuplet ∈ measure.elements ∧ tuplet.divisions.toNat % 2 = 0 ∧
          leaf.event ∈ tuplet.events ∧
            (ofFloat leaf.event.beats).value * (ofFloat tuplet.scale).value ≤
              2 ^ (-1075 : Int)) := by
  refine ⟨event.beats_lasts, fun index own found => ?_, tuplet.lasts_beats_iff,
    fun meter fits simple => tuplet.lasting_iff_of_simple fits simple, ?_,
    fun leaf member => ⟨(Score.finite_of_mem_leaves member).2, Score.lasts_or_faint member⟩⟩
  · exact ⟨_, Option.map_eq_some_iff.mpr ⟨own, found, rfl⟩, tuplet.lasts_real_iff own⟩
  · exact tuplet.lasting_of_moderate

end Leaves

end Rhythm
