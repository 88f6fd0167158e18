import Rhythm.Decimal.Literal
import Rhythm.Score
import Rhythm.Score.Misreading
import Rhythm.Text.Line

/-
This file reads scores from text, one measure from each line.
-/

namespace Rhythm

open Rhythm.Text

/-- A piece of a line is read or refused. -/
abbrev Reading (A : Type) := Except Misreading A

/-- A part that cannot exist makes its line impossible. -/
def built {A : Type} (result : Except Fault A) : Reading A :=
  result.mapError .impossible

/-- A missing part is reported as a misprint of the token. -/
def expect {A : Type} (token : List Char) (misprint : Misprint) : Option A → Reading A
  | some value => .ok value
  | none => .error (.misprint token misprint)

/-- A rest has this mark in place of a pitch. -/
def isRestMark (field : List Char) : Bool :=
  field == ['R'] || field == ['r']

/-- A field is taken for a pitch when it marks a rest or ends in a digit. -/
def looksLikePitch (field : List Char) : Bool :=
  isRestMark field || field.getLast?.any Char.isDigit

/-- An event is written in up to three fields. -/
structure EventFields where
  duration : List Char
  pitch? : Option (List Char)
  flags? : Option (List Char)

/-- The fields of an event are told apart by their order. A lone second field is a pitch if it
looks like one, and holds flags otherwise. -/
def EventFields.read (token : List Char) : Reading EventFields :=
  match token.splitOn '/' with
  | [duration] => .ok ⟨duration, none, none⟩
  | [duration, second] =>
      if looksLikePitch second then .ok ⟨duration, some second, none⟩
      else .ok ⟨duration, none, some second⟩
  | [duration, second, third] =>
      if looksLikePitch second then .ok ⟨duration, some second, some third⟩
      else .error (.misprint token (.noPitch second))
  | _ => .error (.misprint token .manyFields)

/-- The octave is a decimal digit. -/
def octaveOf? (character : Char) : Option (Fin 10) :=
  if character.isDigit then
    some ⟨(character.toNat - '0'.toNat) % 10, Nat.mod_lt _ (by decide)⟩
  else none

/-- A pitch has a letter, an accidental that may be left out, and an octave. -/
def Pitch.read (token field : List Char) : Reading Pitch := do
  let (letter, accidental?, octave) ← expect token (.pitch field) <|
    match field with
    | [letter, octave] => some (letter, none, octave)
    | [letter, accidental, octave] => some (letter, some accidental, octave)
    | _ => none
  let name ← expect token (.letter letter) (Letter.ofChar? letter)
  let accidental ← match accidental? with
    | some code => expect token (.accidental code) (Accidental.ofCode? code)
    | none => pure .natural
  let digit ← expect token (.octave octave) (octaveOf? octave)
  return ⟨name, accidental, digit⟩

/-- The flags say whether a note is tied and whether it is unbeamed. -/
def readFlags (token : List Char) : List (List Char) → Reading (Bool × Bool)
  | [] => .ok (false, false)
  | flag :: rest =>
      if flag = ['T'] then (readFlags token rest).map fun flags => (true, flags.2)
      else if flag = ['U'] then (readFlags token rest).map fun flags => (flags.1, true)
      else .error (.misprint token (.flag flag))

def Note.read (token : List Char) (fields : EventFields) (beats : Float) : Reading Note := do
  let pitch ← match fields.pitch? with
    | some field => Pitch.read token field
    | none => pure .middleC
  let flags ← match fields.flags? with
    | some field => readFlags token (field.splitOn ',')
    | none => pure (false, false)
  let duration ← built (Duration.of beats)
  return ⟨duration, pitch, flags.1, flags.2⟩

/-- An event is a rest if the mark of a rest stands in place of its pitch. -/
def Event.read (token : List Char) : Reading Event := do
  let fields ← EventFields.read token
  let beats ← expect token (.duration fields.duration) (Decimal.readFloat? fields.duration)
  if fields.pitch?.any isRestMark then
    if fields.flags?.isSome then throw (.misprint token .restFlags)
    let duration ← built (Duration.of beats)
    return .rest ⟨duration⟩
  else
    return .note (← Note.read token fields beats)

/-- The text between the parentheses around it. -/
def unwrap? : List Char → Option (List Char)
  | '(' :: rest => dropLast? ')' rest
  | _ => none

def hasParenthesis (text : List Char) : Bool :=
  text.contains '(' || text.contains ')'

/-- One of the events of a tuplet, which must not be empty. -/
def readSlot (token slot : List Char) : Reading Event :=
  if slot.isEmpty then .error (.misprint token .emptySlot) else Event.read slot

/-- A tuplet has a number of divisions and, in parentheses, events with hyphens between them. -/
def Tuplet.read (meter : Meter) (token divisionsText body : List Char) : Reading Tuplet := do
  let divisions ← expect token (.divisions divisionsText) (Numeral.readWord? divisionsText)
  let inside ← expect token .notWrapped (unwrap? body)
  if inside.contains '=' then throw (.nested token)
  if hasParenthesis inside then throw (.misprint token .looseBrackets)
  if inside.isEmpty then throw (.misprint token .noEvents)
  let events ← (inside.splitOn '-').mapM (readSlot token)
  built (Tuplet.of divisions (events.map .single) meter)

/-- An element with an equals sign is a tuplet. -/
def Element.read (meter : Meter) (token : List Char) : Reading Element :=
  match cutAt '=' token with
  | some (divisions, body) => (Tuplet.read meter token divisions body).map .group
  | none => (Event.read token).map .single

/-- The meter of a measure and the text of its groups stand before the colon. -/
def splitIntro (token intro : List Char) : Reading (List Char × Option (List Char)) :=
  match cutAt '(' intro with
  | some (before, after) =>
      match dropLast? ')' after with
      | some inside =>
          if hasParenthesis inside then .error (.misprint token .looseGrouping)
          else .ok (before, some inside)
      | none => .error (.misprint token .looseGrouping)
  | none =>
      if intro.contains ')' then .error (.misprint token .looseGrouping) else .ok (intro, none)

def Meter.read (token text : List Char) : Reading Meter := do
  let (countText, unitText) ← expect token .noSlash (cutAt '/' text)
  let count ← expect token (.count countText) (Numeral.readWord? countText)
  let unit ← expect token (.unit unitText) (Numeral.readWord? unitText)
  let meter : Meter := ⟨count, unit⟩
  let _ ← built meter.check
  return meter

def readGroup (token text : List Char) : Reading UInt32 :=
  expect token (.beatGroup text) (Numeral.readWord? text)

/-- The meter and the groups of a measure are read without regard to blanks. -/
def readIntro (intro : List Char) : Reading (Meter × Option (List UInt32)) := do
  let token := trim intro
  let (meterText, groups?) ← splitIntro token (squeeze intro)
  let meter ← Meter.read token meterText
  match groups? with
  | some groups => return (meter, some (← (groups.splitOn '+').mapM (readGroup token)))
  | none => return (meter, none)

/-- A measure is read from one line. -/
def Measure.read (line : List Char) : Reading Measure := do
  let (intro, contents) ← expect (trim line) .noColon (cutAt ':' line)
  let (meter, grouping?) ← readIntro intro
  let tokens := words contents
  if tokens.isEmpty then throw (.misprint (trim line) .noElements)
  let elements ← tokens.mapM (Element.read meter)
  built (Measure.of elements meter grouping?)

namespace Score

abbrev NumberedLine := List Char × Nat

/-- The lines of a score are numbered from one, starting with the first line of the text. Blank
lines before and after the score are left out. -/
def numberedLines (text : List Char) : List NumberedLine :=
  let skipped := (text.takeWhile isBlank).count '\n'
  (lines (trim text)).zipIdx (skipped + 1)

def readLine (line : NumberedLine) : Except ReadError Measure :=
  (Measure.read line.1).mapError fun misreading => ⟨line.2, misreading⟩

/-- A score is read line by line, and the first failure counts. -/
def read (source : String) : Except ReadError Score :=
  (numberedLines source.toList).mapM readLine

end Score

end Rhythm
