import Rhythm.Fault

/-
This file lists what can go wrong when a line of a score is read, each with its wording.
-/

namespace Rhythm

/-- A misprint says how a text leaves the grammar of scores. -/
inductive Misprint where
  /-- A line has no colon. -/
  | noColon
  /-- Nothing follows the colon of a line. -/
  | noElements
  /-- The parentheses around the groups of a measure do not match. -/
  | looseGrouping
  /-- A meter has no slash. -/
  | noSlash
  /-- The count of a meter is no number. -/
  | count (text : List Char)
  /-- The unit of a meter is no number. -/
  | unit (text : List Char)
  /-- A group of beats is no number. -/
  | beatGroup (text : List Char)
  /-- The divisions of a tuplet are no number. -/
  | divisions (text : List Char)
  /-- The events of a tuplet are not in parentheses. -/
  | notWrapped
  /-- There are parentheses inside a tuplet. -/
  | looseBrackets
  /-- A tuplet has no events. -/
  | noEvents
  /-- A tuplet has a separator without an event before or after it. -/
  | emptySlot
  /-- The middle one of three fields is no pitch. -/
  | noPitch (text : List Char)
  /-- An event has more than three fields. -/
  | manyFields
  /-- The duration of an event is no number. -/
  | duration (text : List Char)
  /-- A rest has flags. -/
  | restFlags
  /-- A pitch has too few or too many characters. -/
  | pitch (text : List Char)
  /-- A pitch has an unknown letter. -/
  | letter (character : Char)
  /-- A pitch has an unknown accidental. -/
  | accidental (character : Char)
  /-- A pitch has an octave that is no digit. -/
  | octave (character : Char)
  /-- A note has an unknown flag. -/
  | flag (text : List Char)

namespace Misprint

def quote (text : List Char) : String :=
  "'" ++ String.ofList text ++ "'"

def message : Misprint → String
  | noColon => "Missing ':' after the time signature"
  | noElements => "Measure has no elements"
  | looseGrouping => "Unbalanced parentheses in beat grouping"
  | noSlash => "Time signature must look like <num>/<den>"
  | count text => "Invalid time signature numerator " ++ quote text
  | unit text => "Invalid time signature denominator " ++ quote text
  | beatGroup text => "Invalid beat group " ++ quote text
  | divisions text => "Invalid tuplet division count " ++ quote text
  | notWrapped => "Tuplet elements must be wrapped in '(' and ')'"
  | looseBrackets => "Unbalanced brackets in tuplet"
  | noEvents => "Tuplet has no elements"
  | emptySlot => "Empty element slot in tuplet"
  | noPitch text => "Expected a pitch before the extra arguments, found " ++ quote text
  | manyFields =>
      "Too many '/' separated fields (expected duration/pitch/extra arguments)"
  | duration text => "Invalid duration " ++ quote text
  | restFlags => "Rests do not take extra arguments"
  | pitch text =>
      "Invalid pitch " ++ quote text ++
        " (expected a letter, an optional accidental and a single-digit octave)"
  | letter character => "Unknown pitch letter " ++ quote [character]
  | accidental character => "Unknown accidental " ++ quote [character]
  | octave character => "Invalid octave " ++ quote [character]
  | flag text => "Unknown extra argument " ++ quote text ++ " (expected T or U)"

end Misprint

/-- A misreading says why a line of a score gives no measure. -/
inductive Misreading where
  /-- A piece of the line leaves the grammar. -/
  | misprint (token : List Char) (misprint : Misprint)
  /-- The line describes a measure that cannot exist. -/
  | impossible (fault : Fault)
  /-- A tuplet is written inside another one. -/
  | nested (token : List Char)

/-- A reading fails at the line with this number. -/
structure ReadError where
  line : Nat
  misreading : Misreading

def ReadError.message (error : ReadError) : String :=
  match error.misreading with
  | .misprint token misprint =>
      "Format error at line " ++ toString error.line ++ ", token " ++ Misprint.quote token ++
        ": " ++ misprint.message
  | .impossible fault =>
      "Invalid measure at line " ++ toString error.line ++ ": " ++ fault.wording
  | .nested token =>
      "Invalid measure at line " ++ toString error.line ++ ": " ++ Fault.nestedTuplet.wording ++
        ": " ++ Misprint.quote token

end Rhythm
