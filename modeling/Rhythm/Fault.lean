import Rhythm.Decimal.Layout
import Rhythm.Meter

/-
This file lists what can be wrong with the parts of a score, each with its wording.
-/

namespace Rhythm

/-- A fault says why a part of a score cannot exist. -/
inductive Fault where
  /-- A duration is not a positive finite number of beats. -/
  | duration (beats : Float)
  /-- An octave is not a single digit. -/
  | octave (number : Int)
  /-- A meter has a zero in it. -/
  | emptyMeter (meter : Meter)
  /-- A meter has too many beats. -/
  | crowdedMeter (meter : Meter)
  /-- A tuplet divides its time into nothing. -/
  | noDivisions
  /-- A tuplet holds nothing. -/
  | emptyTuplet
  /-- A tuplet holds another tuplet. -/
  | nestedTuplet
  /-- A measure holds nothing. -/
  | emptyMeasure (meter : Meter)
  /-- A tuplet was made for another meter. -/
  | strayTuplet (divisions : UInt32) (scale : Float) (meter : Meter) (expected : Float)
  /-- The elements last longer than their measure. -/
  | overfull (total : Float) (meter : Meter)
  /-- A grouping has no group or an empty one. -/
  | emptyGroup (grouping : List UInt32)
  /-- A grouping has more or fewer beats than its meter. -/
  | strayGrouping (grouping : List UInt32) (meter : Meter)

namespace Fault

open Decimal (plainText)

/-- The groups of a grouping are written with plus signs between them. -/
def groupingText (grouping : List UInt32) : String :=
  "+".intercalate (grouping.map fun group => toString group.toNat)

/-- This is what is wrong, in words. -/
def wording : Fault → String
  | duration beats =>
      "Element duration must be a positive number of beats, got " ++ plainText beats
  | octave number => "Octave " ++ toString number ++ " is outside 0..=9"
  | emptyMeter meter =>
      "Time signature " ++ meter.text ++ " must have a positive numerator and denominator"
  | crowdedMeter meter =>
      "Time signature " ++ meter.text ++ " has more than " ++ toString Meter.mostBeats.toNat ++
        " beats per measure"
  | noDivisions => "A tuplet needs a positive number of divisions"
  | emptyTuplet => "A tuplet needs at least one element"
  | nestedTuplet => "Tuplets cannot be nested inside other tuplets"
  | emptyMeasure meter => "A " ++ meter.text ++ " measure needs at least one element"
  | strayTuplet divisions scale meter expected =>
      "A " ++ toString divisions.toNat ++ "-tuplet scaled by " ++ plainText scale ++
        " does not belong in " ++ meter.text ++ " (expected a scale of " ++
        plainText expected ++ ")"
  | overfull total meter =>
      "Elements take " ++ plainText total ++ " beats but the " ++ meter.text ++
        " measure only holds " ++ toString meter.count.toNat
  | emptyGroup grouping =>
      "Beat grouping (" ++ groupingText grouping ++
        ") must consist of groups of at least one beat"
  | strayGrouping grouping meter =>
      "The beat grouping of (" ++ groupingText grouping ++
        ") is incompatible with the time signature of " ++ meter.text

/-- A fault that no line of a score is to blame for is an invalid argument. -/
def message (fault : Fault) : String :=
  "Invalid argument: " ++ fault.wording

/-- The condition is required, and the fault is raised where it fails. -/
def require (condition : Prop) [Decidable condition] (fault : Fault) :
    Except Fault (PLift condition) :=
  if holds : condition then .ok ⟨holds⟩ else .error fault

theorem require_of_holds {condition : Prop} [Decidable condition] {fault : Fault}
    (holds : condition) : require condition fault = .ok ⟨holds⟩ :=
  dif_pos holds

theorem require_of_fails {condition : Prop} [Decidable condition] {fault : Fault}
    (fails : ¬ condition) : require condition fault = .error fault :=
  dif_neg fails

end Fault

namespace Meter

/-- A meter is checked before measures are built on it. -/
def check (meter : Meter) : Except Fault (PLift meter.Playable) := do
  let ⟨positive⟩ ← Fault.require (0 < meter.count ∧ 0 < meter.unit) (.emptyMeter meter)
  let ⟨few⟩ ← Fault.require (meter.count ≤ mostBeats) (.crowdedMeter meter)
  return ⟨⟨positive.1, positive.2, few⟩⟩

/-- A grouping is checked against the meter of its measure. -/
def checkGrouping (meter : Meter) (grouping : List UInt32) :
    Except Fault (PLift (meter.Partitions grouping)) := do
  let ⟨groups⟩ ← Fault.require (grouping ≠ [] ∧ (0 : UInt32) ∉ grouping)
    (.emptyGroup grouping)
  let ⟨total⟩ ← Fault.require (beatsOf grouping = meter.count)
    (.strayGrouping grouping meter)
  return ⟨⟨groups.1, groups.2, total⟩⟩

end Meter

end Rhythm
