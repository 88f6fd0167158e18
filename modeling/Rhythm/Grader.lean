import Rhythm.Decimal.Binary
import Rhythm.Timing

/-
This file grades taps against windows. Only the first window that has not closed can be hit, and
it can be hit once.
-/

namespace Rhythm

/-- A grader goes through its windows and keeps count of the taps. -/
structure Grader where
  windows : List Window
  /-- How many windows have closed. -/
  index : Nat
  /-- Whether the current window has been hit. -/
  hit : Bool
  taps : Nat
  accurate : Nat
  missed : Nat
  deriving DecidableEq

/-- A tap hits the current window or not. -/
inductive Outcome where
  | accurate
  | inaccurate
  deriving DecidableEq

structure Summary where
  taps : Nat
  accurate : Nat
  missed : Nat
  accuracy : Option Nat
  deriving DecidableEq

namespace Grader

def new (windows : List Window) : Grader :=
  ⟨windows, 0, false, 0, 0, 0⟩

/-- The window that the next tap is graded against. -/
def current? (grader : Grader) : Option Window :=
  grader.windows[grader.index]?

def isFinished (grader : Grader) : Bool :=
  grader.windows.length ≤ grader.index

/-- The current window closes, and is missed if it was not hit. -/
def close (grader : Grader) : Grader :=
  { grader with
    index := grader.index + 1
    hit := false
    missed := if grader.hit then grader.missed else grader.missed + 1 }

/-- Of the windows that lie ahead, those before the first one still open close. They are counted. -/
def closeAhead (now : Float) : List Window → Grader → Nat × Grader
  | [], grader => (0, grader)
  | window :: rest, grader =>
      if now ≤ window.closes then (0, grader)
      else
        let (closed, later) := closeAhead now rest grader.close
        (closed + 1, later)

/-- All windows close that end before the given time. Their number is returned. -/
def advance (grader : Grader) (now : Float) : Nat × Grader :=
  closeAhead now (grader.windows.drop grader.index) grader

/-- A tap is accurate when it lies in the current window and that has not been hit. -/
def judge (grader : Grader) (now : Float) : Outcome :=
  if !grader.hit && grader.current?.any (·.contains now) then .accurate else .inaccurate

/-- The count takes in a tap. -/
def record (grader : Grader) : Outcome → Grader
  | .accurate =>
      { grader with hit := true, taps := grader.taps + 1, accurate := grader.accurate + 1 }
  | .inaccurate => { grader with taps := grader.taps + 1 }

/-- Windows close up to the time of a tap, and then the tap is judged. -/
def tap (grader : Grader) (now : Float) : Outcome × Grader :=
  let ready := (grader.advance now).2
  let outcome := ready.judge now
  (outcome, ready.record outcome)

/-- What counts are the taps and the windows missed. -/
def counted (grader : Grader) : Nat :=
  grader.taps + grader.missed

/-- The accuracy is the share of accurate taps as a percentage, rounded to the nearest one. -/
def accuracy? (grader : Grader) : Option Nat :=
  if grader.counted = 0 then none
  else
    let share := Float.ofNat grader.accurate / Float.ofNat grader.counted
    some (Binary.ofFloat (share * 100)).round

def summary (grader : Grader) : Summary :=
  ⟨grader.taps, grader.accurate, grader.missed, grader.accuracy?⟩

end Grader

end Rhythm
