import Rhythm.Score.Walk
import Rhythm.Timing

/-
This file lays the notes of a score out in time.
-/

namespace Rhythm

/-- A tap is a note to be tapped, with its window. -/
structure Tap where
  position : Position
  window : Window
  deriving DecidableEq

/-- The steps are laid out one after the other, starting at the given center. -/
def tapsFrom (timing : Timing) : Float → List Step → List Tap
  | _, [] => []
  | center, step :: rest =>
      let later := tapsFrom timing (center + secondsOf step.beats timing.tempo) rest
      if step.tapped then
        ⟨step.position, Window.around center timing.lenienceSeconds⟩ :: later
      else later

namespace Score

/-- The taps of a score in playing order. The first window is centered one lenience after the start.
-/
def schedule (score : Score) (timing : Timing) (start : Float) : List Tap :=
  tapsFrom timing (start + timing.lenienceSeconds) score.walk

def windows (score : Score) (timing : Timing) (start : Float) : List Window :=
  (score.schedule timing start).map Tap.window

end Score

end Rhythm
