import Rhythm.Duration
import Rhythm.Pitch

/-
This file holds notes and rests, which are the events of a score.
-/

namespace Rhythm

/-- A note sounds a pitch for some time. -/
structure Note where
  duration : Duration
  pitch : Pitch
  /-- Whether the note is bound to the next one. -/
  tied : Bool
  /-- Whether the note is kept apart from the beam of the next one. -/
  unbeamed : Bool
  deriving DecidableEq

/-- A note without a pitch of its own is a middle C. -/
def Note.of (beats : Float) : Except Fault Note := do
  return ⟨← Duration.of beats, .middleC, false, false⟩

def Note.beats (note : Note) : Float :=
  note.duration.beats

/-- Two notes are alike when they have the same pitch. -/
def Note.alike (first second : Note) : Bool :=
  first.pitch == second.pitch

/-- A rest is silent for some time. -/
structure Rest where
  duration : Duration
  deriving DecidableEq

def Rest.beats (rest : Rest) : Float :=
  rest.duration.beats

def Rest.text (rest : Rest) : String :=
  "Rest " ++ Decimal.plainText rest.beats

/-- An event is a note or a rest. -/
inductive Event where
  | note (sound : Note)
  | rest (silence : Rest)
  deriving DecidableEq

namespace Event

/-- The beats that an event takes as written. -/
def beats : Event → Float
  | note sound => sound.beats
  | rest silence => silence.beats

def note? : Event → Option Note
  | note sound => some sound
  | rest _ => none

/-- Notes are alike by pitch, and rests by duration. -/
def alike : Event → Event → Bool
  | note first, note second => first.alike second
  | rest first, rest second => first.beats == second.beats
  | _, _ => false

/-- A tied note is held over into a note of the same pitch that is not tied itself. -/
def tiedTo : Event → Event → Bool
  | note first, note second => first.tied && first.alike second && !second.tied
  | _, _ => false

theorem beats_lasts (event : Event) : Lasts event.beats := by
  cases event with
  | note sound => exact sound.duration.lasts
  | rest silence => exact silence.duration.lasts

end Event

/-- Beats are added one after the other, from the first to the last. -/
def totalBeats (beats : List Float) : Float :=
  beats.foldl (· + ·) 0

end Rhythm
