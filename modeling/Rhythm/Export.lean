import Rhythm.Grader
import Rhythm.Timing.Schedule
import Rhythm.Yaml.Writer

/-
This file writes windows, taps, timings and summaries as YAML.
-/

namespace Rhythm

open Rhythm.Yaml

def Window.yamlLines (window : Window) : List String :=
  [entry "begin" (float window.opens), entry "end" (float window.closes)]

/-- The lines of a position. Only the position of an event inside a tuplet has an inner index. -/
def Position.yamlLines (position : Position) : List String :=
  entry "element" (toString position.element) ::
    position.inner.toList.map fun inner => entry "inner" (toString inner)

def Tap.yamlLines (tap : Tap) : List String :=
  nested "position" tap.position.yamlLines ++ nested "window" tap.window.yamlLines

def windowsYaml (windows : List Window) : String :=
  document (items (windows.map Window.yamlLines))

def tapsYaml (taps : List Tap) : String :=
  document (items (taps.map Tap.yamlLines))

def positionYaml : Option Position → String
  | some position => document position.yamlLines
  | none => document ["null"]

def Timing.yaml (timing : Timing) : String :=
  document [entry "tempo" (float timing.tempo), entry "lenience-beats" (float timing.lenience)]

def Summary.yaml (summary : Summary) : String :=
  document
    [entry "taps" (toString summary.taps), entry "accurate" (toString summary.accurate),
      entry "missed" (toString summary.missed), entry "accuracy" (optionalNat summary.accuracy)]

end Rhythm
