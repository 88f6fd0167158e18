import Rhythm.Duration

/-
This file holds tempos, lenience and the windows in which taps count.
-/

namespace Rhythm

/-- The timing of a level. -/
structure Timing where
  /-- Beats per minute. -/
  tempo : Float
  /-- Half the width of a window in beats. -/
  lenience : Float

namespace Timing

/-- The timing of a level that names none. -/
def standard : Timing := ⟨100, 0.1⟩

/-- Half the width of a window in seconds. -/
def lenienceSeconds (timing : Timing) : Float :=
  timing.lenience * 60 / timing.tempo

def alike (first second : Timing) : Bool :=
  first.tempo == second.tempo && first.lenience == second.lenience

end Timing

/-- A window is the time in which a tap hits a note. -/
structure Window where
  opens : Float
  closes : Float
  deriving DecidableEq

namespace Window

/-- The window that reaches some seconds to both sides of a center. -/
def around (center halfWidth : Float) : Window :=
  ⟨center - halfWidth, center + halfWidth⟩

def center (window : Window) : Float :=
  (window.opens + window.closes) / 2

/-- Half the width of a window. -/
def halfWidth (window : Window) : Float :=
  (window.closes - window.opens) / 2

/-- A window holds the times between its ends and the ends themselves. -/
def contains (window : Window) (time : Float) : Bool :=
  window.opens ≤ time && time ≤ window.closes

end Window

end Rhythm
