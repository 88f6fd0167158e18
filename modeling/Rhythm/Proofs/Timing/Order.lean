import Rhythm.Proofs.Binary.Grounded
import Rhythm.Proofs.Score.Invariant
import Rhythm.Proofs.Timing.Chain

/-
This file puts the windows of a score in order. The main statement is `Score.schedule_ordered`, that
every window is one and that neither their beginnings nor their ends ever go back.
-/

namespace Rhythm

open Rhythm.Binary

section Beats

variable {meter : Meter} {elements : List Element} {score : Score} {leaf : Leaf}

/-- The beats that a measure may take are finite, since they stay below the next natural number. -/
theorem Meter.finite_capacity (playable : meter.Playable) :
    (meter.capacity + slack).isFinite = true := by
  have few : meter.count.toNat < 2 ^ 32 := meter.count.toNat_lt
  have own := Meter.amount_capacity playable.count_pos
  have bound : meter.capacity ≤ Float.ofNat meter.count.toNat :=
    toFloat_eq_ofNat playable.count_pos ▸ number_le_refl own.defined
  have total := own.add_le_succ amount_slack bound (by decide) (by omega)
  exact (own.add amount_slack).grounded.finite_of_le total (place_natural (by omega)).1

/-- No element of a measure takes infinitely many beats. -/
theorem Measure.finite_beats (measure : Measure) {element : Element}
    (member : element ∈ measure.elements) : element.beats.isFinite = true := by
  obtain ⟨playable, -, -, holds, -⟩ := measure.wellformed
  have taken : element.beats ≤ beatsTaken measure.elements := by
    refine (Amount.le_foldl_add Amount.zero ?_).2 _ (List.mem_map_of_mem member)
    intro beats member
    obtain ⟨own, -, rfl⟩ := List.mem_map.mp member
    exact own.amount_beats
  have held := (not_overfills_iff playable.count_pos).mp holds
  exact element.amount_beats.grounded.finite_of_le (number_le_trans taken held)
    (Meter.finite_capacity playable)

/-- An event of a tuplet takes no more real beats than the tuplet. -/
theorem Tuplet.real_le_beats (tuplet : Tuplet) {event : Event} (member : event ∈ tuplet.events) :
    Amount (event.beats * tuplet.scale) ∧ event.beats * tuplet.scale ≤ tuplet.beats := by
  have own := Amount.of_lasts event.beats_lasts
  have part : event.beats ≤ totalBeats (tuplet.events.map Event.beats) :=
    (Amount.le_foldl_add Amount.zero tuplet.amount_events).2 _ (List.mem_map_of_mem member)
  exact ⟨own.mul tuplet.lasts_scale, own.mul_le_mul
    (Amount.foldl_add Amount.zero tuplet.amount_events) part tuplet.lasts_scale⟩

/-- A leaf takes finitely many real beats, though they may be rounded to none. -/
theorem Score.finite_of_mem_leaves (member : leaf ∈ score.leaves) :
    Amount leaf.beats ∧ leaf.beats.isFinite = true := by
  obtain ⟨⟨element, index⟩, chosen, inside⟩ := List.mem_flatMap.mp member
  have found := List.mem_of_getElem? (List.mem_zipIdx_iff_getElem?.mp chosen)
  obtain ⟨measure, -, own⟩ := List.mem_flatMap.mp found
  have finite := measure.finite_beats own
  cases element with
  | single event =>
      rw [List.mem_singleton.mp inside]
      exact ⟨Amount.of_lasts event.beats_lasts, finite⟩
  | group tuplet =>
      obtain ⟨⟨event, inner⟩, entry, rfl⟩ := List.mem_map.mp inside
      have part := List.mem_of_getElem? (List.mem_zipIdx_iff_getElem?.mp entry)
      obtain ⟨amount, order⟩ := tuplet.real_le_beats part
      exact ⟨amount, amount.grounded.finite_of_le order finite⟩

/-- Finitely many beats take an amount of seconds, which may be infinite. -/
theorem amount_secondsOf {beats tempo : Float} (amount : Amount beats)
    (finite : beats.isFinite = true) (positive : 0 < tempo) : Amount (secondsOf beats tempo) :=
  (amount.div finite positive).mul (by decide)

end Beats

section Order

variable {score : Score} {timing : Timing} {start center later : Float}

/-- The next center comes no earlier. -/
theorem Score.center_step (positive : 0 < timing.tempo) {index : Nat}
    (grounded : Grounded (score.center timing start index)) :
    score.center timing start index ≤ score.center timing start (index + 1) := by
  cases found : score.leaves[index]? with
  | none =>
      rw [Score.center, found]
      exact (grounded.le_add Amount.zero.nonneg).1
  | some leaf =>
      obtain ⟨amount, finite⟩ := Score.finite_of_mem_leaves (List.mem_of_getElem? found)
      rw [Score.center_succ found]
      exact (grounded.le_add (amount_secondsOf amount finite positive).nonneg).1

/-- A center comes no earlier than the start. -/
theorem Score.start_le_center (positive : 0 < timing.tempo) (nonneg : 0 ≤ timing.lenienceSeconds)
    (finite : start.isFinite = true) (index : Nat) :
    start ≤ score.center timing start index := by
  have grounded := grounded_of_finite finite
  induction index with
  | zero => exact (grounded.le_add nonneg).1
  | succ index inductionHypothesis =>
      exact number_le_trans inductionHypothesis
        (Score.center_step positive (grounded.of_le inductionHypothesis))

/-- From a finite start no center is minus infinity. -/
theorem Score.grounded_center (positive : 0 < timing.tempo) (nonneg : 0 ≤ timing.lenienceSeconds)
    (finite : start.isFinite = true) (index : Nat) :
    Grounded (score.center timing start index) :=
  (grounded_of_finite finite).of_le (Score.start_le_center positive nonneg finite index)

/-- The centers never go back. -/
theorem Score.center_monotone (positive : 0 < timing.tempo) (nonneg : 0 ≤ timing.lenienceSeconds)
    (finite : start.isFinite = true) {first second : Nat} (order : first ≤ second) :
    score.center timing start first ≤ score.center timing start second := by
  have grounded (index : Nat) : Grounded (score.center timing start index) :=
    Score.grounded_center positive nonneg finite index
  induction second, order using Nat.le_induction with
  | base => exact number_le_refl (grounded first).defined
  | succ index _ inductionHypothesis =>
      exact number_le_trans inductionHypothesis (Score.center_step positive (grounded index))

/-- A finite number that is not negative lies above its opposite. -/
theorem neg_le_self {number : Float} (nonneg : 0 ≤ number) (finite : number.isFinite = true) :
    -number ≤ number := by
  obtain ⟨-, defined, order⟩ := le_iff_place.mp nonneg
  refine le_iff_place.mpr ⟨(grounded_of_finite (neg_finite finite)).defined, defined, ?_⟩
  rw [place_zero] at order
  rw [place_neg]
  linarith

/-- The window around a center that comes no earlier neither opens nor closes earlier. -/
theorem Window.around_le_around {halfWidth : Float} (finite : halfWidth.isFinite = true)
    (grounded : Grounded center) (order : center ≤ later) :
    (Window.around center halfWidth).opens ≤ (Window.around later halfWidth).opens ∧
      (Window.around center halfWidth).closes ≤ (Window.around later halfWidth).closes := by
  have reach := grounded_of_finite finite
  have opposite := grounded_of_finite (neg_finite finite)
  constructor
  · simp only [Window.around, number_sub_eq_add_neg]
    exact grounded.sum_le_sum opposite order (number_le_refl opposite.defined)
  · exact grounded.sum_le_sum reach order (number_le_refl reach.defined)

/-- A window around a center does not close before it opens. -/
theorem Window.opens_le_closes {halfWidth : Float} (finite : halfWidth.isFinite = true)
    (nonneg : 0 ≤ halfWidth) (grounded : Grounded center) :
    (Window.around center halfWidth).opens ≤ (Window.around center halfWidth).closes := by
  simp only [Window.around, number_sub_eq_add_neg]
  exact grounded.sum_le_sum (grounded_of_finite (neg_finite finite))
    (number_le_refl grounded.defined) (neg_le_self nonneg finite)

/-- At any tempo above zero, with a finite lenience that is not negative and a finite start, every
window has two numbers as its ends and does not close before it opens. From one tap to any later one
neither the beginnings nor the ends of the windows go back. Seconds may be rounded to zero and
centers may become infinite. -/
theorem Score.schedule_ordered (score : Score) (timing : Timing) (start : Float)
    (positive : 0 < timing.tempo) (finite : timing.lenienceSeconds.isFinite = true)
    (nonneg : 0 ≤ timing.lenienceSeconds) (startFinite : start.isFinite = true) :
    (∀ tap ∈ score.schedule timing start, tap.window.opens.isNaN = false ∧
      tap.window.closes.isNaN = false ∧ tap.window.opens ≤ tap.window.closes) ∧
    (score.schedule timing start).Pairwise fun first second =>
      first.window.opens ≤ second.window.opens ∧ first.window.closes ≤ second.window.closes := by
  have grounded (index : Nat) : Grounded (score.center timing start index) :=
    Score.grounded_center positive nonneg startFinite index
  constructor
  · intro tap member
    obtain ⟨index, leaf, -, -, rfl⟩ := Score.exists_of_mem_schedule member
    have ordered := Window.opens_le_closes finite nonneg (grounded index)
    obtain ⟨opensDefined, closesDefined, -⟩ := le_iff_place.mp ordered
    exact ⟨isNaN_eq_false_iff.mpr opensDefined, isNaN_eq_false_iff.mpr closesDefined, ordered⟩
  · rw [score.schedule_eq, List.pairwise_map]
    refine ((pairwise_zipIdx score.leaves).filter _).imp fun {first second} less => ?_
    exact Window.around_le_around finite (grounded first.2)
      (Score.center_monotone positive nonneg startFinite less.le)

/-- At the least tempo there is, four tied quarters run from zero to infinity in order. -/
theorem Score.schedule_ordered_fourTied :
    (∀ tap ∈ fourTied.schedule ⟨5e-324, 0⟩ 0, tap.window.opens.isNaN = false ∧
      tap.window.closes.isNaN = false ∧ tap.window.opens ≤ tap.window.closes) ∧
    (fourTied.schedule ⟨5e-324, 0⟩ 0).Pairwise fun first second =>
      first.window.opens ≤ second.window.opens ∧ first.window.closes ≤ second.window.closes :=
  Score.schedule_ordered fourTied ⟨5e-324, 0⟩ 0 (by decide +kernel) (by decide +kernel)
    (by decide +kernel) (by decide)

end Order

end Rhythm
