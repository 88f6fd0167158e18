import Rhythm.Proofs.Binary.Amount
import Rhythm.Proofs.Binary.Rounding
import Rhythm.Proofs.Score.Draft

/-
This file says in plain numbers what holds of every measure. The main statement is
`Measure.consistent_exact`, that these conditions are the ones under which elements make up a
measure.
-/

namespace Rhythm

open Outcome

def Element.events : Element → List Event
  | single event => [event]
  | group tuplet => tuplet.events

/-- A tuplet is consistent with a meter when it divides the time of its events by the scale that
the meter gives it. -/
structure Tuplet.Consistent (meter : Meter) (tuplet : Tuplet) : Prop where
  divided : 1 ≤ tuplet.divisions.toNat
  filled : tuplet.events ≠ []
  scaled : tuplet.scale = tupletScale meter.isCompound tuplet.divisions
  timed : tuplet.beats = (tuplet.events.map Event.beats).foldl (· + ·) 0 * tuplet.scale

/-- An event is consistent when it lasts a positive finite number of beats, in an octave of one
digit if it is a note. -/
structure Event.Consistent (event : Event) : Prop where
  positive : 0 < event.beats
  finite : event.beats.isFinite = true
  octave : ∀ sound, event = .note sound → sound.pitch.octave.val ≤ 9

/-- Elements are coherent in a meter with some groups when the groups are positive, each element is
consistent, and the elements together take a number of beats that exceeds the meter by no more than
the rounding of fractions. -/
structure Measure.Coherent (meter : Meter) (elements : List Element) (grouping : List UInt32) :
    Prop where
  counted : 1 ≤ meter.count.toNat ∧ meter.count.toNat ≤ 64
  united : 1 ≤ meter.unit.toNat
  filled : elements ≠ []
  grouped : grouping ≠ [] ∧ ∀ group ∈ grouping, 1 ≤ group.toNat
  tuplets : ∀ tuplet, .group tuplet ∈ elements → tuplet.Consistent meter
  events : ∀ element ∈ elements, ∀ event ∈ element.events, event.Consistent
  defined : (beatsTaken elements).isNaN = false
  held : beatsTaken elements ≤ meter.count.toFloat + 1e-9

/-- Elements are consistent with a meter and its groups when they are coherent and the groups have
all the beats of the meter. -/
structure Measure.Consistent (meter : Meter) (elements : List Element) (grouping : List UInt32) :
    Prop extends Measure.Coherent meter elements grouping where
  partitioned : (grouping.map UInt32.toNat).sum = meter.count.toNat

/-- The beats of groups fit in a word when their sum does not wrap around. -/
def Meter.FitsWord (grouping : List UInt32) : Prop :=
  (grouping.map UInt32.toNat).sum < 2 ^ 32

section Parts

variable {meter : Meter} {grouping : List UInt32}

theorem one_le_toNat_iff {word : UInt32} : 1 ≤ word.toNat ↔ 0 < word := by
  rw [UInt32.lt_iff_toNat_lt]
  rfl

/-- A meter is playable when its numbers are in their ranges. -/
theorem Meter.playable_iff :
    meter.Playable ↔ (1 ≤ meter.count.toNat ∧ meter.count.toNat ≤ 64) ∧ 1 ≤ meter.unit.toNat := by
  rw [one_le_toNat_iff, one_le_toNat_iff]
  constructor
  · intro playable
    exact ⟨⟨playable.count_pos, UInt32.le_iff_toNat_le.mp playable.count_le⟩, playable.unit_pos⟩
  · intro ranges
    obtain ⟨⟨countPositive, few⟩, unitPositive⟩ := ranges
    exact ⟨countPositive, unitPositive, UInt32.le_iff_toNat_le.mpr few⟩

/-- A grouping partitions a meter when its groups are positive and have all beats. -/
theorem Meter.partitions_iff :
    meter.Partitions grouping ↔ (grouping ≠ [] ∧ ∀ group ∈ grouping, 1 ≤ group.toNat) ∧
      beatsOf grouping = meter.count := by
  have positive : (0 : UInt32) ∉ grouping ↔ ∀ group ∈ grouping, 1 ≤ group.toNat := by
    constructor
    · intro fresh group member
      rw [one_le_toNat_iff, UInt32.pos_iff_ne_zero]
      exact ne_of_mem_of_not_mem member fresh
    · intro positive member
      exact absurd (positive 0 member) (by decide)
  rw [← positive]
  constructor
  · intro partitions
    exact ⟨⟨partitions.nonempty, partitions.positive⟩, partitions.total⟩
  · intro parts
    exact ⟨parts.1.1, parts.1.2, parts.2⟩

/-- Groups partition a meter as words do. Here their sum wraps around once. -/
example : (⟨1, 4⟩ : Meter).Partitions [4294967295, 2] :=
  ⟨by decide, by decide, by decide⟩

/-- The beats of groups are their sum up to multiples of the number of words. -/
theorem Meter.toNat_beatsOf (grouping : List UInt32) :
    (beatsOf grouping).toNat = (grouping.map UInt32.toNat).sum % 2 ^ 32 := by
  induction grouping with
  | nil => rfl
  | cons group rest inductionHypothesis =>
      rw [beatsOf, UInt32.toNat_add, inductionHypothesis, List.map_cons, List.sum_cons,
        Nat.add_mod_mod]

/-- The beats of groups are their sum when it fits in a word. -/
theorem Meter.beatsOf_eq_iff (fits : FitsWord grouping) :
    beatsOf grouping = meter.count ↔ (grouping.map UInt32.toNat).sum = meter.count.toNat := by
  rw [← UInt32.toNat_inj, toNat_beatsOf, Nat.mod_eq_of_lt fits]

theorem Meter.fitsWord_of_sum_eq (whole : (grouping.map UInt32.toNat).sum = meter.count.toNat) :
    FitsWord grouping :=
  whole.trans_lt meter.count.toNat_lt

/-- A meter that groups its beats itself never wraps around. -/
theorem Meter.fitsWord_defaultGrouping (meter : Meter) : FitsWord meter.defaultGrouping := by
  refine @fitsWord_of_sum_eq meter _ ?_
  rw [defaultGrouping]
  split
  case isTrue compound =>
    have thirds := congrArg UInt32.toNat (thirds_mul_three compound)
    have small := meter.count.toNat_lt
    rw [UInt32.toNat_mul, UInt32.toNat_div] at thirds
    rw [List.map_replicate, List.sum_replicate, UInt32.toNat_div]
    change meter.count.toNat / 3 * 3 % 2 ^ 32 = meter.count.toNat at thirds
    change meter.count.toNat / 3 * 3 = meter.count.toNat
    omega
  case isFalse => simp

/-- Every event is consistent, since its duration was checked. -/
theorem Event.consistent (event : Event) : event.Consistent := by
  obtain ⟨positive, finite⟩ := event.beats_lasts
  exact ⟨positive, finite, fun sound _ => Nat.le_of_lt_succ sound.pitch.octave.isLt⟩

/-- A tuplet with the scale of a meter is consistent with it. -/
theorem Tuplet.consistent_iff {tuplet : Tuplet} :
    tuplet.Consistent meter ↔ tuplet.scale = tupletScale meter.isCompound tuplet.divisions := by
  constructor
  · exact Tuplet.Consistent.scaled
  · intro scaled
    exact ⟨one_le_toNat_iff.mpr tuplet.divisions_pos, tuplet.events_ne, scaled, rfl⟩

/-- The events of some elements are all of them when none is a tuplet. -/
theorem Element.eq_of_singles? {elements : List Element} {events : List Event}
    (flat : singles? elements = some events) : elements = events.map .single := by
  induction elements generalizing events with
  | nil =>
      cases flat
      rfl
  | cons element rest inductionHypothesis =>
      cases element with
      | single event =>
          obtain ⟨others, own, rfl⟩ := Option.map_eq_some_iff.mp flat
          rw [List.map_cons, inductionHypothesis own]
      | group tuplet => cases flat

/-- No element of a tuplet is a tuplet, and the tuplet holds them all in their order. -/
theorem Tuplet.elements_of {divisions : UInt32} {elements : List Element} {tuplet : Tuplet}
    (made : Tuplet.of divisions elements meter = .ok tuplet) :
    elements = tuplet.events.map .single := by
  obtain ⟨_, -, made⟩ := bind_eq_ok_iff.mp made
  dsimp only at made
  split at made
  case h_1 => cases made
  case h_2 events flat =>
    obtain ⟨_, -, equation⟩ := bind_eq_ok_iff.mp made
    cases equation
    exact Element.eq_of_singles? flat

/-- The scale of a tuplet is a positive finite number. -/
theorem lasts_tupletScale (compound : Bool) {divisions : UInt32} (positive : 0 < divisions) :
    Lasts (tupletScale compound divisions) := by
  unfold tupletScale
  split
  · have three : (3 : Float) = (3 : UInt32).toFloat := by
      decide
    rw [three]
    exact Binary.lasts_div_toFloat (by decide) positive
  · exact Binary.lasts_div_toFloat (floorPower_pos positive) positive

theorem Tuplet.lasts_scale (tuplet : Tuplet) : Lasts tuplet.scale := by
  obtain ⟨compound, scaled⟩ := tuplet.scale_eq
  rw [scaled]
  exact lasts_tupletScale compound tuplet.divisions_pos

theorem Tuplet.amount_events (tuplet : Tuplet) :
    ∀ beats ∈ tuplet.events.map Event.beats, Binary.Amount beats := by
  intro beats member
  obtain ⟨event, -, rfl⟩ := List.mem_map.mp member
  exact Binary.Amount.of_lasts event.beats_lasts

/-- The beats of an element are an amount. -/
theorem Element.amount_beats (element : Element) : Binary.Amount element.beats := by
  cases element with
  | single event => exact Binary.Amount.of_lasts event.beats_lasts
  | group tuplet =>
      exact (Binary.Amount.foldl_add Binary.Amount.zero tuplet.amount_events).mul
        tuplet.lasts_scale

/-- The beats that elements take are an amount. -/
theorem amount_beatsTaken (elements : List Element) : Binary.Amount (beatsTaken elements) := by
  refine Binary.Amount.foldl_add Binary.Amount.zero fun beats member => ?_
  obtain ⟨element, -, rfl⟩ := List.mem_map.mp member
  exact element.amount_beats

theorem Meter.amount_capacity (positive : 0 < meter.count) : Binary.Amount meter.capacity :=
  Binary.Amount.of_lasts (Binary.lasts_toFloat positive)

theorem amount_slack : Binary.Amount slack :=
  Binary.Amount.of_lasts (by decide)

/-- Elements hold in a measure when they take at most its capacity. -/
theorem not_overfills_iff {elements : List Element} (positive : 0 < meter.count) :
    ¬ Overfills meter elements ↔ beatsTaken elements ≤ meter.count.toFloat + 1e-9 := by
  have capacity : Binary.Amount (meter.capacity + slack) :=
    (Meter.amount_capacity positive).add amount_slack
  constructor
  · intro holds
    exact Binary.number_le_of_not_lt (amount_beatsTaken elements).defined capacity.defined holds
  · intro bound less
    obtain ⟨-, -, most⟩ := Binary.le_iff_rank.mp bound
    obtain ⟨-, -, more⟩ := Binary.lt_iff_rank.mp less
    exact absurd more (not_lt.mpr most)

end Parts

namespace Measure

variable {meter : Meter} {elements : List Element} {grouping : List UInt32}

/-- The conditions of a measure are coherence and groups that have its beats as words do. -/
theorem wellformed_iff_coherent :
    Wellformed meter elements grouping ↔
      Coherent meter elements grouping ∧ Meter.beatsOf grouping = meter.count := by
  constructor
  · intro wellformed
    obtain ⟨playable, nonempty, fit, holds, partitions⟩ := wellformed
    obtain ⟨counted, united⟩ := Meter.playable_iff.mp playable
    obtain ⟨grouped, total⟩ := Meter.partitions_iff.mp partitions
    exact ⟨⟨counted, united, nonempty, grouped,
      fun tuplet member => Tuplet.consistent_iff.mpr (Tuplet.fits_iff.mp (fit tuplet member)),
      fun _ _ event _ => event.consistent,
      Binary.isNaN_eq_false_iff.mpr (amount_beatsTaken elements).defined,
      (not_overfills_iff playable.count_pos).mp holds⟩, total⟩
  · rintro ⟨coherent, total⟩
    have playable := Meter.playable_iff.mpr ⟨coherent.counted, coherent.united⟩
    exact ⟨playable, coherent.filled,
      fun tuplet member => Tuplet.fits_iff.mpr (coherent.tuplets tuplet member).scaled,
      (not_overfills_iff playable.count_pos).mpr coherent.held,
      Meter.partitions_iff.mpr ⟨coherent.grouped, total⟩⟩

theorem wellformed_of_consistent (consistent : Consistent meter elements grouping) :
    Wellformed meter elements grouping := by
  have fits := Meter.fitsWord_of_sum_eq consistent.partitioned
  exact wellformed_iff_coherent.mpr
    ⟨consistent.toCoherent, (Meter.beatsOf_eq_iff fits).mpr consistent.partitioned⟩

theorem consistent_of_wellformed (fits : Meter.FitsWord grouping)
    (wellformed : Wellformed meter elements grouping) : Consistent meter elements grouping := by
  obtain ⟨coherent, total⟩ := wellformed_iff_coherent.mp wellformed
  exact ⟨coherent, (Meter.beatsOf_eq_iff fits).mp total⟩

/-- Elements that are not well-formed do not make up a measure. -/
theorem exists_error_of_not_wellformed {grouping? : Option (List UInt32)}
    (illformed : ¬ Wellformed meter elements (grouping?.getD meter.defaultGrouping)) :
    ∃ fault, Measure.of elements meter grouping? = .error fault := by
  cases made : Measure.of elements meter grouping? with
  | error fault => exact ⟨fault, rfl⟩
  | ok measure =>
      obtain ⟨rfl, rfl, same⟩ := Measure.of_eq_ok_iff.mp made
      rw [← same] at illformed
      exact absurd measure.wellformed illformed

/-- Every measure is coherent, however it was made, and it is consistent when the beats of its
groups fit in a word, as those of a default grouping do. No tuplet was made from tuplets. Elements
that are consistent with a meter and its groups make up a measure of just these elements. Any others
are refused, unless they are coherent and only their groups are wrong, in a sum that wraps around.
-/
theorem consistent_exact :
    (∀ measure : Measure, Coherent measure.meter measure.elements measure.grouping) ∧
    (∀ measure : Measure, Meter.FitsWord measure.grouping →
      Consistent measure.meter measure.elements measure.grouping) ∧
    (∀ meter : Meter, Meter.FitsWord meter.defaultGrouping) ∧
    (∀ divisions elements meter tuplet, Tuplet.of divisions elements meter = .ok tuplet →
      elements = tuplet.events.map .single) ∧
    ∀ elements meter (grouping? : Option (List UInt32)),
      (Consistent meter elements (grouping?.getD meter.defaultGrouping) →
        ∃ measure, Measure.of elements meter grouping? = .ok measure ∧
          measure.meter = meter ∧ measure.elements = elements ∧
            measure.grouping = grouping?.getD meter.defaultGrouping) ∧
      (¬ Coherent meter elements (grouping?.getD meter.defaultGrouping) →
        ∃ fault, Measure.of elements meter grouping? = .error fault) ∧
      (Meter.FitsWord (grouping?.getD meter.defaultGrouping) →
        ¬ Consistent meter elements (grouping?.getD meter.defaultGrouping) →
          ∃ fault, Measure.of elements meter grouping? = .error fault) := by
  refine ⟨fun measure => (wellformed_iff_coherent.mp measure.wellformed).1,
    fun measure fits => consistent_of_wellformed fits measure.wellformed,
    Meter.fitsWord_defaultGrouping,
    fun divisions elements meter tuplet made => Tuplet.elements_of made, ?_⟩
  intro elements meter grouping?
  refine ⟨fun consistent => ?_, fun incoherent => ?_, fun fits inconsistent => ?_⟩
  · refine ⟨⟨meter, elements, _, wellformed_of_consistent consistent⟩, ?_, rfl, rfl, rfl⟩
    exact Measure.of_eq_ok_iff.mpr ⟨rfl, rfl, rfl⟩
  · apply exists_error_of_not_wellformed
    exact fun wellformed => incoherent (wellformed_iff_coherent.mp wellformed).1
  · apply exists_error_of_not_wellformed
    exact fun wellformed => inconsistent (consistent_of_wellformed fits wellformed)

end Measure

end Rhythm
