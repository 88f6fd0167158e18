import Rhythm.Proofs.Binary.Grounded
import Rhythm.Proofs.Score.Fit
import Rhythm.Proofs.Score.Leaves
import Rhythm.Proofs.Score.RoundTrip

/-
This file shows that every playable meter has a click track. The main statement is
`Measure.clickTrack_exact`, which says what a click track holds, that rounding never overfills it,
and that it is tapped on every beat.
-/

namespace Rhythm

open Binary Outcome

section Beats

variable {meter : Meter} {elements : List Element}

/-- Elements of at most one beat each take no more beats than there are elements. -/
theorem beatsTaken_le_length (brief : ∀ element ∈ elements, element.beats ≤ 1)
    (few : elements.length < 2 ^ 53) : beatsTaken elements ≤ Float.ofNat elements.length := by
  have parts : ∀ own ∈ elements.map Element.beats, Amount own ∧ own ≤ 1 := by
    intro own member
    obtain ⟨element, found, rfl⟩ := List.mem_map.mp member
    exact ⟨element.amount_beats, brief element found⟩
  have start : (0 : Float) ≤ Float.ofNat 0 := Amount.zero.nonneg
  have total := Amount.foldl_add_le Amount.zero start parts
    (by rwa [Nat.zero_add, List.length_map])
  rwa [Nat.zero_add, List.length_map] at total

/-- Elements that take no more beats than a meter has do not overfill it. -/
theorem not_overfills_of_le (positive : 0 < meter.count)
    (held : beatsTaken elements ≤ meter.capacity) : ¬ Overfills meter elements := by
  have room := ((Meter.amount_capacity positive).grounded.le_add amount_slack.nonneg).1
  exact (not_overfills_iff positive).mpr (number_le_trans held room)

end Beats

section Untied

variable {leaves : List Leaf}

/-- The leaves of an element hold its events. -/
theorem Element.map_event_leaves (element : Element) (index : Nat) :
    (element.leaves index).map Leaf.event = element.events := by
  cases element with
  | single event => rfl
  | group tuplet =>
      rw [Element.leaves, List.map_map]
      change tuplet.events.zipIdx.map Prod.fst = tuplet.events
      exact List.zipIdx_map_fst 0 tuplet.events

/-- The leaves of a score hold the events of its elements. -/
theorem Score.map_event_leaves (score : Score) :
    score.leaves.map Leaf.event = score.elements.flatMap Element.events := by
  rw [Score.leaves, leavesFrom, List.map_flatMap]
  simp only [Element.map_event_leaves]
  rw [← List.flatMap_map, List.zipIdx_map_fst]

/-- Elements that are single events hold just these. -/
theorem Element.flatMap_events_single (events : List Event) :
    (events.map .single).flatMap Element.events = events := by
  rw [List.flatMap_map]
  exact List.flatMap_singleton' events

/-- Where no note is tied, no leaf is bound into the next one. -/
theorem boundPairs_eq_zero (untied : ∀ leaf ∈ leaves, ∀ sound, leaf.event = .note sound →
    sound.tied = false) : boundPairs leaves = 0 := by
  rw [boundPairs, List.countP_eq_zero]
  intro pair member bound
  obtain ⟨sound, next, first, -, tied, -⟩ := of_decide_eq_true bound
  have free := untied pair.1 (List.of_mem_zip member).1 sound first
  rw [tied] at free
  cases free

/-- A score without tied notes is tapped on each of its notes. -/
theorem Score.audibleCount_of_untied (score : Score)
    (untied : ∀ event ∈ score.elements.flatMap Element.events, ∀ sound, event = .note sound →
      sound.tied = false) :
    score.audibleCount = (score.elements.flatMap Element.events).countP Event.isNote := by
  rw [← Score.map_event_leaves] at untied ⊢
  have unbound : boundPairs score.leaves = 0 :=
    boundPairs_eq_zero fun leaf member => untied leaf.event (List.mem_map_of_mem member)
  have counted := score.audibleCount_add_boundPairs
  rw [unbound, Nat.add_zero] at counted
  rw [counted, List.countP_map]
  rfl

end Untied

section Clicks

variable {meter : Meter} {click sound : Note} {measure : Measure}

/-- A note clicks in a meter when it is an untied middle C that lasts one beat of a meter that
counts whole notes. -/
structure Note.Clicks (meter : Meter) (sound : Note) : Prop where
  beats : sound.beats = 1 / meter.unit.toFloat
  pitch : sound.pitch = ⟨.c, .natural, 4⟩
  free : sound.tied = false
  beamed : sound.unbeamed = false

/-- The note that a click track repeats is a click. -/
theorem Note.of_click_iff : Note.of (1 / meter.unit.toFloat) = .ok sound ↔ sound.Clicks meter := by
  rw [Note.of_eq_ok_iff]
  constructor
  · intro given
    obtain ⟨beats, pitch, free, beamed⟩ := given
    exact ⟨beats, pitch, free, beamed⟩
  · intro clicks
    exact ⟨clicks.beats, clicks.pitch, clicks.free, clicks.beamed⟩

/-- Every playable meter has a click. -/
theorem Note.exists_click (playable : meter.Playable) : ∃ sound : Note, sound.Clicks meter := by
  have lasts : Lasts (1 / meter.unit.toFloat) :=
    @lasts_div_toFloat 1 meter.unit (by decide) playable.unit_pos
  exact ⟨⟨⟨_, lasts⟩, .middleC, false, false⟩, rfl, rfl, rfl, rfl⟩

/-- A click lasts the rounded quotient of one by the unit of the meter. -/
theorem Note.Clicks.rounds (clicks : sound.Clicks meter) (positive : 0 < meter.unit) :
    Rounds (1 / meter.unit.toNat) sound.beats := by
  have quotient := @rounds_div_toFloat 1 meter.unit (by decide) positive
  rw [clicks.beats]
  exact_mod_cast quotient

/-- A click lasts at most one beat. -/
theorem Note.Clicks.beats_le_one (clicks : sound.Clicks meter) (positive : 0 < meter.unit) :
    sound.beats ≤ 1 := by
  obtain ⟨oneFinite, onePlace⟩ := place_natural (by decide : 1 < 2 ^ 53)
  have lasts := lasts_toFloat positive
  have least : 1 ≤ place meter.unit.toFloat := by
    rw [place_of_lasts lasts, value_toFloat positive]
    exact_mod_cast toNat_pos positive
  have quotient := approximates_div oneFinite lasts
  rw [clicks.beats]
  refine quotient.mono (approximates_place oneFinite) (div_le_self ?_ least)
  rw [onePlace]
  exact Nat.cast_nonneg 1

/-- A click track is made of one click for every beat, and grouped as its meter is. -/
theorem Measure.clickTrack_eq_ok_iff : Measure.clickTrack meter = .ok measure ↔
    measure.meter = meter ∧ measure.grouping = meter.defaultGrouping ∧
      ∃ click : Note, click.Clicks meter ∧
        measure.elements = List.replicate meter.count.toNat (.single (.note click)) := by
  constructor
  · intro made
    obtain ⟨_, -, made⟩ := bind_eq_ok_iff.mp made
    obtain ⟨click, sounds, made⟩ := bind_eq_ok_iff.mp made
    obtain ⟨own, elements, grouping⟩ := Measure.of_eq_ok_iff.mp made
    exact ⟨own, grouping, click, Note.of_click_iff.mp sounds, elements⟩
  · intro given
    obtain ⟨rfl, grouping, click, clicks, elements⟩ := given
    -- The given measure is well formed, so no check of its parts can fail.
    exact bind_eq_ok_iff.mpr ⟨_, Meter.check_of_playable measure.wellformed.playable,
      bind_eq_ok_iff.mpr ⟨click, Note.of_click_iff.mpr clicks,
        Measure.of_eq_ok_iff.mpr ⟨rfl, elements, grouping⟩⟩⟩

/-- Any number of clicks takes at most as many beats, though the sum is rounded at every click. -/
theorem Note.Clicks.beatsTaken_le (clicks : click.Clicks meter) (positive : 0 < meter.unit)
    {count : Nat} (few : count < 2 ^ 53) :
    beatsTaken (List.replicate count (.single (.note click))) ≤ Float.ofNat count := by
  have brief : ∀ element ∈ List.replicate count (Element.single (.note click)),
      element.beats ≤ 1 := by
    intro element member
    rw [List.eq_of_mem_replicate member]
    exact clicks.beats_le_one positive
  have total := beatsTaken_le_length brief (by rwa [List.length_replicate])
  rwa [List.length_replicate] at total

/-- Every playable meter has a click track. -/
theorem Measure.exists_clickTrack (playable : meter.Playable) :
    ∃ measure, Measure.clickTrack meter = .ok measure := by
  obtain ⟨click, clicks⟩ := Note.exists_click playable
  have counted := toNat_pos playable.count_pos
  let elements := List.replicate meter.count.toNat (Element.single (.note click))
  have nonempty : elements ≠ [] :=
    List.ne_nil_of_length_pos (by rwa [List.length_replicate])
  have fit : AllFit meter elements := by
    intro tuplet member
    cases List.eq_of_mem_replicate member
  have held : beatsTaken elements ≤ meter.capacity := by
    rw [Meter.capacity, toFloat_eq_ofNat playable.count_pos]
    exact clicks.beatsTaken_le playable.unit_pos (meter.count.toNat_lt.trans (by decide))
  exact ⟨⟨meter, elements, _, playable, nonempty, fit,
    not_overfills_of_le playable.count_pos held,
    Meter.defaultGrouping_partitions playable.count_pos⟩,
    Measure.clickTrack_eq_ok_iff.mpr ⟨rfl, rfl, click, clicks, rfl⟩⟩

/-- A meter has a click track if and only if it passes its check. -/
theorem Measure.exists_clickTrack_iff : (∃ measure, Measure.clickTrack meter = .ok measure) ↔
    ∃ playable, meter.check = .ok playable := by
  constructor
  · intro made
    obtain ⟨measure, made⟩ := made
    obtain ⟨playable, checked, -⟩ := bind_eq_ok_iff.mp made
    exact ⟨playable, checked⟩
  · intro checked
    exact Measure.exists_clickTrack (Meter.exists_check_iff.mp checked)

/-- Where there is no click track, the fault is that of the meter. -/
theorem Measure.clickTrack_eq_error_iff {fault : Fault} :
    Measure.clickTrack meter = .error fault ↔ meter.check = .error fault := by
  constructor
  · intro failed
    cases checked : meter.check with
    | error other =>
        have same := failed.symm.trans (bind_eq_error_iff.mpr (.inl checked))
        cases same
        rfl
    | ok playable =>
        obtain ⟨measure, made⟩ := Measure.exists_clickTrack playable.down
        cases made.symm.trans failed
  · intro failed
    exact bind_eq_error_iff.mpr (.inl failed)

/-- Clicks are tapped one by one. -/
theorem Note.Clicks.audibleCount (clicks : click.Clicks meter) {count : Nat}
    (elements : measure.elements = List.replicate count (.single (.note click))) :
    Score.audibleCount [measure] = count := by
  have events : (Score.elements [measure]).flatMap Element.events =
      List.replicate count (.note click) := by
    rw [Score.elements, List.flatMap_cons, List.flatMap_nil, List.append_nil, elements,
      ← List.map_replicate, Element.flatMap_events_single]
  have untied : ∀ event ∈ (Score.elements [measure]).flatMap Element.events, ∀ sound,
      event = .note sound → sound.tied = false := by
    intro event member sound same
    rw [events] at member
    cases (List.eq_of_mem_replicate member).symm.trans same
    exact clicks.free
  rw [Score.audibleCount_of_untied _ untied, events, List.countP_replicate]
  exact if_pos rfl

/-- A meter has a click track if and only if it passes its check, which it does with up to 64 beats
of a positive unit. Otherwise the fault is that of the check. A click track has one click for every
beat, which lasts the rounded quotient of one by the unit. Added one after the other, the clicks
never take more beats than there are of them, so that they do not overfill their measure for any
unit. The track is grouped as its meter is, each click is tapped, and the written track is read back
as it was. -/
theorem Measure.clickTrack_exact (meter : Meter) :
    ((∃ measure, clickTrack meter = .ok measure) ↔ ∃ playable, meter.check = .ok playable) ∧
    ((∃ playable, meter.check = .ok playable) ↔
      (1 ≤ meter.count.toNat ∧ meter.count.toNat ≤ 64) ∧ 1 ≤ meter.unit.toNat) ∧
    (∀ fault, clickTrack meter = .error fault ↔ meter.check = .error fault) ∧
    ∀ measure, clickTrack meter = .ok measure →
      measure.meter = meter ∧
      (∃ click : Note,
        measure.elements = List.replicate meter.count.toNat (.single (.note click)) ∧
          click.Clicks meter ∧ Rounds (1 / meter.unit.toNat) click.beats) ∧
      (∀ count ≤ meter.count.toNat,
        beatsTaken (measure.elements.take count) ≤ Float.ofNat count) ∧
      measure.beats ≤ meter.count.toFloat ∧
      measure.grouping = meter.defaultGrouping ∧
      Score.audibleCount [measure] = meter.count.toNat ∧
      Score.read (Score.write [measure]) = .ok [measure] := by
  refine ⟨Measure.exists_clickTrack_iff, Meter.exists_check_iff.trans Meter.playable_iff,
    fun fault => Measure.clickTrack_eq_error_iff, fun measure made => ?_⟩
  obtain ⟨rfl, grouping, click, clicks, elements⟩ := Measure.clickTrack_eq_ok_iff.mp made
  obtain ⟨countPositive, unitPositive, -⟩ := measure.wellformed.playable
  have few := measure.meter.count.toNat_lt.trans (by decide : 2 ^ 32 < 2 ^ 53)
  have taken (count : Nat) (part : count ≤ measure.meter.count.toNat) :
      beatsTaken (measure.elements.take count) ≤ Float.ofNat count := by
    rw [elements, List.take_replicate, Nat.min_eq_left part]
    exact clicks.beatsTaken_le unitPositive (part.trans_lt few)
  refine ⟨rfl, ⟨click, elements, clicks, clicks.rounds unitPositive⟩, taken, ?_, grouping,
    clicks.audibleCount elements, Score.read_write [measure]⟩
  have whole := clicks.beatsTaken_le unitPositive few
  rwa [← elements, ← toFloat_eq_ofNat countPositive] at whole

/-- The meter of 64 whole notes has a click track, which is the fullest one. -/
theorem Measure.clickTrack_exact_fullest :
    ∃ measure, Measure.clickTrack ⟨64, 1⟩ = .ok measure ∧ measure.elements.length = 64 ∧
      measure.beats ≤ (64 : UInt32).toFloat ∧ measure.grouping = [64] ∧
      Score.audibleCount [measure] = 64 ∧ Score.read (Score.write [measure]) = .ok [measure] := by
  obtain ⟨made_iff, checked_iff, -, track⟩ := Measure.clickTrack_exact ⟨64, 1⟩
  obtain ⟨measure, made⟩ := made_iff.mpr (checked_iff.mpr (by decide))
  obtain ⟨-, ⟨click, elements, -⟩, -, held, grouping, audible, reads⟩ := track measure made
  have length : measure.elements.length = 64 := by
    rw [elements, List.length_replicate]
    rfl
  exact ⟨measure, made, length, held, grouping, audible, reads⟩

end Clicks

end Rhythm
