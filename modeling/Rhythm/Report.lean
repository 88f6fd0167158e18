import Rhythm.Grader
import Rhythm.Level

/-
This file lists what is reported while scores are read, timed and graded. Reports change no answer.
-/

namespace Rhythm

inductive Severity where
  | warning
  | detail
  deriving DecidableEq

inductive Report where
  /-- A tempo is not positive. -/
  | tempo (tempo : Float)
  /-- A measure was read from the line with this number. -/
  | measure (line : Nat) (meter : Meter) (elements : Nat)
  /-- Taps were laid out over some elements. -/
  | schedule (taps elements : Nat) (tempo : Float)
  /-- The window with this index closed without a hit. -/
  | missed (window : Nat)

namespace Report

/-- Only a bad tempo is worth a warning. -/
def severity : Report → Severity
  | tempo _ => .warning
  | _ => .detail

def text : Report → String
  | tempo value =>
      "A tempo of " ++ Decimal.plainText value ++
        " was given (it is not greater than 0); durations will be meaningless"
  | measure line meter elements =>
      "Parsed measure on line " ++ toString line ++ " (" ++ meter.text ++ ") with " ++
        toString elements ++ " elements"
  | schedule taps elements value =>
      "Scheduled " ++ toString taps ++ " tap windows over " ++ toString elements ++
        " elements at " ++ Decimal.plainText value ++ " bpm"
  | missed window => "Window " ++ toString window ++ " closed without a tap"

end Report

/-- A tempo that is not positive is reported. -/
def tempoReports (tempo : Float) : List Report :=
  if tempo.isNaN || tempo ≤ 0 then [.tempo tempo] else []

namespace Score

/-- Each measure is reported up to the first line that cannot be read. -/
def lineReports : List NumberedLine → List Report
  | [] => []
  | line :: rest =>
      match Measure.read line.1 with
      | .ok measure => .measure line.2 measure.meter measure.elements.length :: lineReports rest
      | .error _ => []

def readReports (source : String) : List Report :=
  lineReports (numberedLines source.toList)

def scheduleReports (score : Score) (timing : Timing) : List Report :=
  tempoReports timing.tempo ++
    [.schedule score.audibleCount score.elements.length timing.tempo]

end Score

/-- The windows that close without a hit are reported. Only the current one can have been hit. -/
def Grader.advanceReports (grader : Grader) (now : Float) : List Report :=
  let closed := (grader.advance now).1
  let indices := List.range' (grader.index + if grader.hit then 1 else 0)
    (closed - if grader.hit then 1 else 0)
  indices.map .missed

namespace Level

def readReports (source : String) : List Report :=
  match read source with
  | .ok level => tempoReports level.timing.tempo
  | .error _ => []

def scoreReports (level : Level) : List Report :=
  if level.body.isEmpty then [] else Score.readReports level.body

/-- The reports of the scheduling of a level, which reads its score anew. -/
def scheduleReports (level : Level) : List Report :=
  level.scoreReports ++
    match level.score with
    | .ok score => score.scheduleReports level.timing
    | .error _ => []

end Level

end Rhythm
