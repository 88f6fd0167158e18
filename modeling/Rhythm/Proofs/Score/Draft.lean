import Rhythm.Proofs.Binary.Sign
import Rhythm.Proofs.Outcome
import Rhythm.Score

/-
This file holds drafts, which say what a score is meant to hold before anything is checked. The
main statements are `MeasureDraft.build_eq_ok_iff` and `MeasureDraft.exists_realizes_iff`.
-/

namespace Rhythm

open Outcome

/-- An event before its duration is checked. -/
inductive EventDraft where
  | note (beats : Float) (pitch : Pitch) (tied unbeamed : Bool)
  | rest (beats : Float)
  deriving DecidableEq

/-- An element before it is checked. The scale of a tuplet is left to the meter. -/
inductive ElementDraft where
  | single (event : EventDraft)
  | group (divisions : UInt32) (events : List EventDraft)
  deriving DecidableEq

/-- A measure before it is checked. The groups may be left to the meter. -/
structure MeasureDraft where
  meter : Meter
  grouping? : Option (List UInt32)
  elements : List ElementDraft
  deriving DecidableEq

/-- The draft of an event forgets that its duration was checked. -/
def Event.draft : Event → EventDraft
  | note sound => .note sound.beats sound.pitch sound.tied sound.unbeamed
  | rest silence => .rest silence.beats

/-- The draft of a tuplet forgets its scale. -/
def Element.draft : Element → ElementDraft
  | single event => .single event.draft
  | group tuplet => .group tuplet.divisions (tuplet.events.map Event.draft)

/-- The element has the scale that it has in measures of the meter. -/
def Element.Scaled (meter : Meter) : Element → Prop
  | single _ => True
  | group tuplet => tuplet.scale = tupletScale meter.isCompound tuplet.divisions

namespace EventDraft

def beats : EventDraft → Float
  | note beats _ _ _ => beats
  | rest beats => beats

/-- An event is sound when it lasts. -/
def Sound (draft : EventDraft) : Prop :=
  Lasts draft.beats

/-- A draft becomes an event if it is sound. -/
def build : EventDraft → Except Fault Event
  | note beats pitch tied unbeamed => do
      let duration ← Duration.of beats
      return .note ⟨duration, pitch, tied, unbeamed⟩
  | rest beats => do
      let duration ← Duration.of beats
      return .rest ⟨duration⟩

end EventDraft

namespace ElementDraft

/-- The real beats of an element in a meter. -/
def beats (meter : Meter) : ElementDraft → Float
  | single event => event.beats
  | group divisions events =>
      totalBeats (events.map EventDraft.beats) * tupletScale meter.isCompound divisions

/-- A tuplet is sound when it divides its time and holds sound events. -/
def Sound : ElementDraft → Prop
  | single event => event.Sound
  | group divisions events => 0 < divisions ∧ events ≠ [] ∧ ∀ event ∈ events, event.Sound

/-- A draft becomes an element of measures in one meter if it is sound. -/
def build (meter : Meter) : ElementDraft → Except Fault Element
  | single event => event.build.map .single
  | group divisions events => do
      let members ← events.mapM EventDraft.build
      let tuplet ← Tuplet.of divisions (members.map .single) meter
      return .group tuplet

end ElementDraft

namespace MeasureDraft

/-- A draft is sound when its parts are and they belong together. -/
structure Sound (draft : MeasureDraft) : Prop where
  playable : draft.meter.Playable
  nonempty : draft.elements ≠ []
  elements : ∀ element ∈ draft.elements, element.Sound
  holds : ¬ draft.meter.capacity + slack <
    totalBeats (draft.elements.map (ElementDraft.beats draft.meter))
  partitions : ∀ grouping ∈ draft.grouping?, draft.meter.Partitions grouping

/-- A measure realizes a draft when it has the meter, the groups and the elements of the draft. -/
structure Realizes (draft : MeasureDraft) (measure : Measure) : Prop where
  meter : measure.meter = draft.meter
  grouping : measure.grouping = draft.grouping?.getD draft.meter.defaultGrouping
  elements : measure.elements.map Element.draft = draft.elements

def build (draft : MeasureDraft) : Except Fault Measure := do
  let _ ← draft.meter.check
  let elements ← draft.elements.mapM (ElementDraft.build draft.meter)
  Measure.of elements draft.meter draft.grouping?

end MeasureDraft

section Building

variable {meter : Meter}

theorem Event.beats_draft (event : Event) : event.draft.beats = event.beats := by
  cases event <;> rfl

/-- A duration keeps its beats. -/
theorem Duration.of_eq_ok_iff {beats : Float} {duration : Duration} :
    Duration.of beats = .ok duration ↔ duration.beats = beats := by
  unfold Duration.of
  constructor
  · intro made
    obtain ⟨_, -, equation⟩ := bind_eq_ok_iff.mp made
    cases equation
    rfl
  · rintro rfl
    rw [Fault.require_of_holds duration.lasts]
    rfl

/-- A note without a pitch of its own is an untied middle C of the given beats. -/
theorem Note.of_eq_ok_iff {beats : Float} {sound : Note} : Note.of beats = .ok sound ↔
    sound.beats = beats ∧ sound.pitch = .middleC ∧ sound.tied = false ∧
      sound.unbeamed = false := by
  constructor
  · intro made
    obtain ⟨duration, lasts, equation⟩ := bind_eq_ok_iff.mp made
    cases equation
    exact ⟨Duration.of_eq_ok_iff.mp lasts, rfl, rfl, rfl⟩
  · intro given
    obtain ⟨duration, pitch, tied, unbeamed⟩ := sound
    obtain ⟨lasts, rfl, rfl, rfl⟩ := given
    exact bind_eq_ok_iff.mpr ⟨duration, Duration.of_eq_ok_iff.mpr lasts, rfl⟩

/-- A draft becomes exactly the events that it is the draft of. -/
theorem EventDraft.build_eq_ok_iff {draft : EventDraft} {event : Event} :
    draft.build = .ok event ↔ event.draft = draft := by
  constructor
  · intro made
    cases draft with
    | note beats pitch tied unbeamed =>
        obtain ⟨duration, lasts, equation⟩ := bind_eq_ok_iff.mp made
        cases equation
        rw [← Duration.of_eq_ok_iff.mp lasts]
        rfl
    | rest beats =>
        obtain ⟨duration, lasts, equation⟩ := bind_eq_ok_iff.mp made
        cases equation
        rw [← Duration.of_eq_ok_iff.mp lasts]
        rfl
  · rintro rfl
    cases event with
    | note sound => exact bind_eq_ok_iff.mpr ⟨_, Duration.of_eq_ok_iff.mpr rfl, rfl⟩
    | rest silence => exact bind_eq_ok_iff.mpr ⟨_, Duration.of_eq_ok_iff.mpr rfl, rfl⟩

/-- Drafts become exactly the events that they are the drafts of. -/
theorem EventDraft.mapM_build_eq_ok_iff {drafts : List EventDraft} {events : List Event} :
    drafts.mapM EventDraft.build = .ok events ↔ events.map Event.draft = drafts := by
  have undone : ∀ draft event, EventDraft.build draft = .ok event ↔
      Event.draft event = draft ∧ True := by
    simp [EventDraft.build_eq_ok_iff]
  simpa using mapM_eq_ok_iff_map undone

/-- Events are found again among elements. -/
theorem Element.singles?_map_single (events : List Event) :
    Element.singles? (events.map .single) = some events := by
  induction events with
  | nil => rfl
  | cons event rest inductionHypothesis =>
      rw [List.map_cons, singles?, inductionHypothesis]
      rfl

/-- A tuplet of events has the divisions, the events and the scale that it is made from. -/
theorem Tuplet.of_eq_ok_iff {divisions : UInt32} {events : List Event} {tuplet : Tuplet} :
    Tuplet.of divisions (events.map .single) meter = .ok tuplet ↔
      tuplet.divisions = divisions ∧ tuplet.events = events ∧
        tuplet.scale = tupletScale meter.isCompound divisions := by
  unfold Tuplet.of
  simp only [Element.singles?_map_single]
  constructor
  · intro made
    obtain ⟨_, -, made⟩ := bind_eq_ok_iff.mp made
    obtain ⟨_, -, equation⟩ := bind_eq_ok_iff.mp made
    cases equation
    exact ⟨rfl, rfl, rfl⟩
  · obtain ⟨ownDivisions, ownEvents, scale, divided, nonempty, scaled⟩ := tuplet
    intro given
    obtain ⟨rfl, rfl, same⟩ := given
    dsimp only at same ⊢
    subst same
    rw [Fault.require_of_holds divided, Fault.require_of_holds nonempty]
    rfl

/-- A draft becomes exactly the elements that it is the draft of and that have the scale of the
meter. -/
theorem ElementDraft.build_eq_ok_iff {draft : ElementDraft} {element : Element} :
    draft.build meter = .ok element ↔ element.draft = draft ∧ element.Scaled meter := by
  cases draft with
  | single event =>
      rw [ElementDraft.build, map_eq_ok_iff]
      constructor
      · intro built
        obtain ⟨made, own, rfl⟩ := built
        exact ⟨congrArg _ (EventDraft.build_eq_ok_iff.mp own), trivial⟩
      · intro given
        obtain ⟨same, -⟩ := given
        cases element with
        | single made => exact ⟨made, EventDraft.build_eq_ok_iff.mpr (by injection same), rfl⟩
        | group tuplet => cases same
  | group divisions events =>
      simp only [ElementDraft.build, bind_eq_ok_iff, EventDraft.mapM_build_eq_ok_iff,
        Tuplet.of_eq_ok_iff]
      constructor
      · intro built
        obtain ⟨members, rfl, tuplet, ⟨rfl, rfl, scaled⟩, equation⟩ := built
        cases equation
        exact ⟨rfl, scaled⟩
      · intro given
        obtain ⟨same, scaled⟩ := given
        cases element with
        | single made => cases same
        | group tuplet =>
            cases same
            exact ⟨tuplet.events, rfl, tuplet, ⟨rfl, rfl, scaled⟩, rfl⟩

theorem ElementDraft.mapM_build_eq_ok_iff {drafts : List ElementDraft}
    {elements : List Element} :
    drafts.mapM (ElementDraft.build meter) = .ok elements ↔
      elements.map Element.draft = drafts ∧ ∀ element ∈ elements, element.Scaled meter :=
  mapM_eq_ok_iff_map fun _ _ => ElementDraft.build_eq_ok_iff

/-- Tuplets that fit the meter pass their check. -/
theorem checkTuplets_of_allFit {elements : List Element} (fit : AllFit meter elements) :
    checkTuplets meter elements = .ok ⟨fit⟩ := by
  induction elements with
  | nil => rfl
  | cons element rest inductionHypothesis =>
      have later := inductionHypothesis fun tuplet member =>
        fit tuplet (List.mem_cons_of_mem _ member)
      cases element with
      | single event =>
          rw [checkTuplets, later]
          rfl
      | group tuplet =>
          rw [checkTuplets, later, Fault.require_of_holds (fit tuplet List.mem_cons_self)]
          rfl

/-- A playable meter passes its check. -/
theorem Meter.check_of_playable (playable : meter.Playable) : meter.check = .ok ⟨playable⟩ := by
  rw [Meter.check, Fault.require_of_holds ⟨playable.count_pos, playable.unit_pos⟩,
    Fault.require_of_holds playable.count_le]
  rfl

/-- The playable meters are those that pass their check. -/
theorem Meter.exists_check_iff : (∃ playable, meter.check = .ok playable) ↔ meter.Playable := by
  constructor
  · intro checked
    obtain ⟨⟨playable⟩, -⟩ := checked
    exact playable
  · intro playable
    exact ⟨_, Meter.check_of_playable playable⟩

/-- Groups that partition the meter pass their check. -/
theorem Meter.checkGrouping_of_partitions {grouping : List UInt32}
    (partitions : meter.Partitions grouping) : meter.checkGrouping grouping = .ok ⟨partitions⟩ := by
  rw [Meter.checkGrouping, Fault.require_of_holds ⟨partitions.nonempty, partitions.positive⟩,
    Fault.require_of_holds partitions.total]
  rfl

/-- A measure has the meter, the elements and the groups that it is made from. -/
theorem Measure.of_eq_ok_iff {elements : List Element} {grouping? : Option (List UInt32)}
    {measure : Measure} :
    Measure.of elements meter grouping? = .ok measure ↔
      measure.meter = meter ∧ measure.elements = elements ∧
        measure.grouping = grouping?.getD meter.defaultGrouping := by
  unfold Measure.of
  constructor
  · intro made
    obtain ⟨⟨playable⟩, -, made⟩ := bind_eq_ok_iff.mp made
    obtain ⟨⟨nonempty⟩, -, made⟩ := bind_eq_ok_iff.mp made
    obtain ⟨⟨fit⟩, -, made⟩ := bind_eq_ok_iff.mp made
    obtain ⟨⟨holds⟩, -, made⟩ := bind_eq_ok_iff.mp made
    cases grouping? with
    | none =>
        cases made
        exact ⟨rfl, rfl, rfl⟩
    | some grouping =>
        obtain ⟨⟨partitions⟩, -, equation⟩ := bind_eq_ok_iff.mp made
        cases equation
        exact ⟨rfl, rfl, rfl⟩
  · obtain ⟨ownMeter, ownElements, ownGrouping, playable, nonempty, fit, holds, partitions⟩ :=
      measure
    intro given
    obtain ⟨rfl, rfl, same⟩ := given
    dsimp only at same ⊢
    subst same
    rw [Meter.check_of_playable playable, Fault.require_of_holds nonempty,
      checkTuplets_of_allFit fit, Fault.require_of_holds holds]
    cases grouping? with
    | none => rfl
    | some grouping =>
        have checked : ownMeter.checkGrouping grouping = .ok ⟨partitions⟩ :=
          Meter.checkGrouping_of_partitions partitions
        simp only [checked]
        rfl

end Building

section Scale

variable {meter : Meter}

/-- The scale of a tuplet has no minus sign. -/
theorem sign_tupletScale (compound : Bool) (divisions : UInt32) :
    Binary.sign (tupletScale compound divisions) = .positive := by
  unfold tupletScale
  split
  · exact Binary.sign_div (if_pos (by decide)) (Binary.sign_toFloat divisions)
  · exact Binary.sign_div (Binary.sign_toFloat _) (Binary.sign_toFloat divisions)

/-- A tuplet that fits a meter has the scale that the meter gives it, bit for bit. -/
theorem Tuplet.scale_eq_of_fits {tuplet : Tuplet} (fits : tuplet.fits meter = true) :
    tuplet.scale = tupletScale meter.isCompound tuplet.divisions := by
  obtain ⟨compound, scaled⟩ := tuplet.scale_eq
  have own : Binary.sign tuplet.scale = .positive := by
    rw [scaled]
    exact sign_tupletScale _ _
  exact Binary.eq_of_beq own (sign_tupletScale _ _) fits

theorem floorPower_pos {number : UInt32} (positive : 0 < number) : 0 < floorPower number := by
  have natural : 0 < number.toNat := UInt32.lt_iff_toNat_lt.mp positive
  have below : Nat.pow 2 number.toNat.log2 < 2 ^ 32 :=
    (Nat.log2_self_le natural.ne').trans_lt number.toNat_lt
  rw [UInt32.lt_iff_toNat_lt, floorPower, UInt32.toNat_ofNat_of_lt' below]
  exact Nat.two_pow_pos _

/-- The scale of a tuplet is a number, which compares as equal to itself. -/
theorem tupletScale_beq_self {divisions : UInt32} (positive : 0 < divisions) (compound : Bool) :
    (tupletScale compound divisions == tupletScale compound divisions) = true := by
  unfold tupletScale
  split
  · exact Binary.div_beq_self (by decide) (Binary.lasts_toFloat positive)
  · exact Binary.div_beq_self (Binary.lasts_toFloat (floorPower_pos positive))
      (Binary.lasts_toFloat positive)

/-- A tuplet fits a meter exactly when it has the scale that the meter gives it. -/
theorem Tuplet.fits_iff {tuplet : Tuplet} :
    tuplet.fits meter = true ↔
      tuplet.scale = tupletScale meter.isCompound tuplet.divisions := by
  constructor
  · exact Tuplet.scale_eq_of_fits
  · intro scaled
    rw [Tuplet.fits, scaled]
    exact tupletScale_beq_self tuplet.divisions_pos _

/-- The tuplets of elements fit a meter when the elements have its scale. -/
theorem allFit_iff {elements : List Element} :
    AllFit meter elements ↔ ∀ element ∈ elements, element.Scaled meter := by
  constructor
  · intro fit element member
    cases element with
    | single event => trivial
    | group tuplet => exact Tuplet.fits_iff.mp (fit tuplet member)
  · intro scaled tuplet member
    exact Tuplet.fits_iff.mpr (scaled _ member)

end Scale

section Sound

variable {meter : Meter}

/-- Members that meet a condition one by one make up a list. -/
theorem exists_map_eq {A B : Type} {undo : B → A} {Fits : B → Prop} {inputs : List A}
    (each : ∀ input ∈ inputs, ∃ value, undo value = input ∧ Fits value) :
    ∃ values : List B, values.map undo = inputs ∧ ∀ value ∈ values, Fits value := by
  induction inputs with
  | nil => exact ⟨[], rfl, by simp⟩
  | cons input rest inductionHypothesis =>
      obtain ⟨value, rfl, fits⟩ := each input List.mem_cons_self
      obtain ⟨values, rfl, fit⟩ := inductionHypothesis fun input member =>
        each input (List.mem_cons_of_mem _ member)
      exact ⟨value :: values, rfl, List.forall_mem_cons.mpr ⟨fits, fit⟩⟩

/-- A sound draft is the draft of an event. -/
theorem EventDraft.Sound.exists_draft {draft : EventDraft} (sound : draft.Sound) :
    ∃ event : Event, event.draft = draft := by
  cases draft with
  | note beats pitch tied unbeamed => exact ⟨.note ⟨⟨beats, sound⟩, pitch, tied, unbeamed⟩, rfl⟩
  | rest beats => exact ⟨.rest ⟨⟨beats, sound⟩⟩, rfl⟩

theorem Event.sound_draft (event : Event) : event.draft.Sound := by
  rw [EventDraft.Sound, Event.beats_draft]
  exact event.beats_lasts

/-- A sound draft is the draft of an element that has the scale of the meter. -/
theorem ElementDraft.Sound.exists_draft {draft : ElementDraft}
    (sound : draft.Sound) : ∃ element : Element, element.draft = draft ∧ element.Scaled meter := by
  cases draft with
  | single event =>
      obtain ⟨made, rfl⟩ := EventDraft.Sound.exists_draft sound
      exact ⟨.single made, rfl, trivial⟩
  | group divisions events =>
      obtain ⟨divided, nonempty, members⟩ := sound
      obtain ⟨made, rfl, -⟩ := @exists_map_eq _ _ Event.draft (fun _ => True) events
        fun event member => by
          obtain ⟨one, same⟩ := EventDraft.Sound.exists_draft (members event member)
          exact ⟨one, same, trivial⟩
      have madeNonempty : made ≠ [] := by
        rintro rfl
        exact nonempty rfl
      exact ⟨.group ⟨divisions, made, _, divided, madeNonempty, ⟨meter.isCompound, rfl⟩⟩, rfl, rfl⟩

theorem Element.sound_draft (element : Element) : element.draft.Sound := by
  cases element with
  | single event => exact event.sound_draft
  | group tuplet =>
      refine ⟨tuplet.divisions_pos, by simpa using tuplet.events_ne, ?_⟩
      intro draft member
      obtain ⟨event, -, rfl⟩ := List.mem_map.mp member
      exact event.sound_draft

/-- A draft keeps the beats of an element that has the scale of the meter. -/
theorem Element.beats_draft {element : Element}
    (scaled : element.Scaled meter) : element.draft.beats meter = element.beats := by
  cases element with
  | single event => exact event.beats_draft
  | group tuplet =>
      have events : (tuplet.events.map Event.draft).map EventDraft.beats =
          tuplet.events.map Event.beats := by
        rw [List.map_map]
        exact List.map_congr_left fun event _ => event.beats_draft
      rw [Element.draft, ElementDraft.beats, events, ← show tuplet.scale = _ from scaled]
      rfl

/-- Drafts keep the beats that elements take. -/
theorem beatsTaken_eq {elements : List Element}
    (scaled : ∀ element ∈ elements, element.Scaled meter) :
    totalBeats ((elements.map Element.draft).map (ElementDraft.beats meter)) =
      beatsTaken elements := by
  rw [beatsTaken, List.map_map]
  congr 1
  exact List.map_congr_left fun element member => Element.beats_draft (scaled element member)

end Sound

namespace MeasureDraft

variable {draft : MeasureDraft} {measure : Measure}

/-- A draft becomes exactly the measures that realize it. -/
theorem build_eq_ok_iff : draft.build = .ok measure ↔ draft.Realizes measure := by
  constructor
  · intro made
    obtain ⟨_, -, made⟩ := bind_eq_ok_iff.mp made
    obtain ⟨elements, parts, made⟩ := bind_eq_ok_iff.mp made
    obtain ⟨meter, same, grouping⟩ := Measure.of_eq_ok_iff.mp made
    exact ⟨meter, grouping, same ▸ (ElementDraft.mapM_build_eq_ok_iff.mp parts).1⟩
  · intro realized
    obtain ⟨meter, grouping, elements⟩ := realized
    have scaled := allFit_iff.mp measure.wellformed.allFit
    rw [meter] at scaled
    refine bind_eq_ok_iff.mpr ⟨_, Meter.check_of_playable (meter ▸ measure.wellformed.playable),
      bind_eq_ok_iff.mpr ⟨measure.elements, ?_, ?_⟩⟩
    · exact ElementDraft.mapM_build_eq_ok_iff.mpr ⟨elements, scaled⟩
    · exact Measure.of_eq_ok_iff.mpr ⟨meter, rfl, grouping⟩

/-- The sound drafts are those that some measure realizes. -/
theorem exists_realizes_iff : (∃ measure, draft.Realizes measure) ↔ draft.Sound := by
  constructor
  · intro realized
    obtain ⟨measure, meter, grouping, elements⟩ := realized
    obtain ⟨playable, nonempty, fit, holds, partitions⟩ := measure.wellformed
    have scaled := allFit_iff.mp fit
    rw [meter] at playable holds partitions scaled
    refine ⟨playable, ?_, ?_, ?_, ?_⟩
    · rw [← elements]
      simpa using nonempty
    · rw [← elements]
      intro element member
      obtain ⟨made, -, rfl⟩ := List.mem_map.mp member
      exact made.sound_draft
    · rw [← elements, beatsTaken_eq scaled]
      exact holds
    · intro own chosen
      rw [grouping, Option.mem_def.mp chosen] at partitions
      exact partitions
  · intro sound
    obtain ⟨playable, nonempty, members, holds, partitions⟩ := sound
    obtain ⟨elements, same, scaled⟩ := exists_map_eq fun element member =>
      ElementDraft.Sound.exists_draft (members element member)
    rw [← same] at nonempty holds
    rw [beatsTaken_eq scaled] at holds
    have groups : draft.meter.Partitions (draft.grouping?.getD draft.meter.defaultGrouping) := by
      cases chosen : draft.grouping? with
      | none => exact Meter.defaultGrouping_partitions playable.count_pos
      | some own => exact partitions own chosen
    exact ⟨⟨draft.meter, elements, _, playable, by simpa using nonempty, allFit_iff.mpr scaled,
      holds, groups⟩, rfl, rfl, same⟩

/-- A draft is realized by one measure and no other. -/
theorem Realizes.iff_eq (realized : draft.Realizes measure) (other : Measure) :
    draft.Realizes other ↔ other = measure := by
  constructor
  · intro second
    have both := (build_eq_ok_iff.mpr second).symm.trans (build_eq_ok_iff.mpr realized)
    injection both
  · rintro rfl
    exact realized

end MeasureDraft

end Rhythm
