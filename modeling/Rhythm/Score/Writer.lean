import Rhythm.Score
import Rhythm.Text.Line

/-
This file writes scores as text, one line for each measure.
-/

namespace Rhythm

open Rhythm.Text

def beatsText (beats : Float) : List Char :=
  Decimal.writeFloat Decimal.plain beats

/-- A pitch is written with its letter, its code and its octave. -/
def Pitch.code (pitch : Pitch) : List Char :=
  pitch.letter.toChar :: (pitch.accidental.code?.toList ++ Numeral.write pitch.octave.val)

/-- The flags of a note are written after it, separated by commas. -/
def Note.flags (note : Note) : List Char :=
  match note.tied, note.unbeamed with
  | false, false => []
  | true, false => ['/', 'T']
  | false, true => ['/', 'U']
  | true, true => ['/', 'T', ',', 'U']

/-- A note is written with its beats, its pitch and its flags. A rest is written with an `R`. -/
def Event.token : Event → List Char
  | note sound => beatsText sound.beats ++ '/' :: (sound.pitch.code ++ sound.flags)
  | rest silence => beatsText silence.beats ++ ['/', 'R']

/-- A tuplet is written with its divisions and its events, which keep the beats that they have as
written. -/
def Element.token : Element → List Char
  | single event => event.token
  | group tuplet =>
      Numeral.write tuplet.divisions.toNat ++ '=' :: '(' ::
        (['-'].intercalate (tuplet.events.map Event.token) ++ [')'])

def Meter.code (meter : Meter) : List Char :=
  Numeral.write meter.count.toNat ++ '/' :: Numeral.write meter.unit.toNat

/-- The groups of a measure are written only if they differ from those of its meter. -/
def Measure.groupingCode (measure : Measure) : List Char :=
  if measure.grouping = measure.meter.defaultGrouping then []
  else
    ' ' :: '(' ::
      (['+'].intercalate (measure.grouping.map fun group => Numeral.write group.toNat) ++ [')'])

/-- A measure is written with its meter, its groups and its elements. -/
def Measure.line (measure : Measure) : List Char :=
  measure.meter.code ++ measure.groupingCode ++
    ':' :: measure.elements.flatMap fun element => ' ' :: element.token

def Score.write (score : Score) : String :=
  String.ofList (unlines (score.map Measure.line))

end Rhythm
