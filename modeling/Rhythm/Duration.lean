import Rhythm.Fault

/-
This file holds durations in beats. One beat is one unit of the meter.
-/

namespace Rhythm

/-- Seconds taken by some beats at a tempo in beats per minute. -/
def secondsOf (beats tempo : Float) : Float :=
  beats / tempo * 60

/-- The note value of some beats in a meter of the given unit. -/
def noteValue (beats : Float) (unit : UInt32) : Float :=
  beats / unit.toFloat

/-- A number of beats is dotted when it is one and a half times a power of two. -/
def isDotted (beats : Float) : Bool :=
  isPowerOfTwo (beats / 1.5)

/-- The beats that are left when the dot is taken away. -/
def withoutDot (beats : Float) : Float :=
  if isDotted beats then beats / 1.5 else beats

/-- A note or rest lasts a positive finite number of beats. -/
def Lasts (beats : Float) : Prop :=
  0 < beats ∧ beats.isFinite = true

instance (beats : Float) : Decidable (Lasts beats) :=
  inferInstanceAs (Decidable (_ ∧ _))

/-- This type holds the durations of notes and rests. -/
structure Duration where
  beats : Float
  lasts : Lasts beats
  deriving DecidableEq

/-- A number of beats becomes a duration if it is positive and finite. -/
def Duration.of (beats : Float) : Except Fault Duration := do
  let ⟨lasts⟩ ← Fault.require (Lasts beats) (.duration beats)
  return ⟨beats, lasts⟩

end Rhythm
