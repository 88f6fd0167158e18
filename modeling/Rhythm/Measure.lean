import Rhythm.Element

/-
This file holds measures. A measure carries the proof that its parts belong together, and the
builder reports the first condition that fails.
-/

namespace Rhythm

/-- The beats of elements may exceed a measure by this much, since fractions of beats are rounded.
-/
def slack : Float := 1e-9

def Meter.capacity (meter : Meter) : Float :=
  meter.count.toFloat

/-- The beats that some elements take together. -/
def beatsTaken (elements : List Element) : Float :=
  totalBeats (elements.map Element.beats)

/-- Elements overfill a measure when they last longer than it does. -/
def Overfills (meter : Meter) (elements : List Element) : Prop :=
  meter.capacity + slack < beatsTaken elements

instance (meter : Meter) (elements : List Element) : Decidable (Overfills meter elements) :=
  inferInstanceAs (Decidable (_ < _))

/-- All tuplets among the elements were made for the meter. -/
def AllFit (meter : Meter) (elements : List Element) : Prop :=
  ∀ tuplet, Element.group tuplet ∈ elements → tuplet.fits meter = true

/-- These conditions make elements into a measure. -/
structure Wellformed (meter : Meter) (elements : List Element) (grouping : List UInt32) :
    Prop where
  playable : meter.Playable
  nonempty : elements ≠ []
  allFit : AllFit meter elements
  holds : ¬ Overfills meter elements
  partitions : meter.Partitions grouping

/-- A measure is a run of elements in one meter, with a pattern of stressed beats. -/
structure Measure where
  meter : Meter
  elements : List Element
  grouping : List UInt32
  wellformed : Wellformed meter elements grouping
  deriving DecidableEq

/-- The tuplets among the elements are checked from the first to the last. -/
def checkTuplets (meter : Meter) :
    (elements : List Element) → Except Fault (PLift (AllFit meter elements))
  | [] => .ok ⟨by simp [AllFit]⟩
  | .single event :: rest => do
      let ⟨fit⟩ ← checkTuplets meter rest
      return ⟨by simpa [AllFit] using fit⟩
  | .group tuplet :: rest => do
      let ⟨own⟩ ← Fault.require (tuplet.fits meter = true)
        (.strayTuplet tuplet.divisions tuplet.scale meter
          (tupletScale meter.isCompound tuplet.divisions))
      let ⟨fit⟩ ← checkTuplets meter rest
      return ⟨by
        intro other member
        rcases List.mem_cons.mp member with same | later
        · exact Element.group.inj same ▸ own
        · exact fit other later⟩

namespace Measure

/-- Elements are made into a measure if all conditions hold. The first condition that fails is
reported. Without a grouping the meter groups the beats. -/
def of (elements : List Element) (meter : Meter) (grouping? : Option (List UInt32)) :
    Except Fault Measure := do
  let ⟨playable⟩ ← meter.check
  let ⟨nonempty⟩ ← Fault.require (elements ≠ []) (.emptyMeasure meter)
  let ⟨fit⟩ ← checkTuplets meter elements
  let ⟨holds⟩ ← Fault.require (¬ Overfills meter elements)
    (.overfull (beatsTaken elements) meter)
  match grouping? with
  | some grouping =>
      let ⟨partitions⟩ ← meter.checkGrouping grouping
      return ⟨meter, elements, grouping, playable, nonempty, fit, holds, partitions⟩
  | none =>
      return ⟨meter, elements, meter.defaultGrouping, playable, nonempty, fit, holds,
        Meter.defaultGrouping_partitions playable.count_pos⟩

/-- A click track sounds one note for every beat of a measure. Each note lasts one beat of a meter
that counts whole notes. -/
def clickTrack (meter : Meter) : Except Fault Measure := do
  let _ ← meter.check
  let click ← Note.of (1 / meter.unit.toFloat)
  of (List.replicate meter.count.toNat (.single (.note click))) meter none

def beats (measure : Measure) : Float :=
  beatsTaken measure.elements

def seconds (measure : Measure) (tempo : Float) : Float :=
  secondsOf measure.meter.capacity tempo

def alike (first second : Measure) : Bool :=
  first.meter == second.meter && first.elements.isEqv second.elements Element.alike &&
    first.grouping == second.grouping

end Measure

end Rhythm
