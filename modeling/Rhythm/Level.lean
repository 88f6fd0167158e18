import Rhythm.Level.FrontMatter
import Rhythm.Score.Reader
import Rhythm.Timing.Schedule

/-
This file holds levels, which are scores with a number, a name, a description and a timing.
-/

namespace Rhythm

open Rhythm.Text

/-- A level keeps its score as text. -/
structure Level where
  number : UInt32
  name : Option String
  description : Option String
  timing : Timing
  body : String

/-- This type says why a level gives no windows. -/
inductive LevelError where
  | frontMatter (fault : FrontMatterFault)
  | score (error : ReadError)

namespace Level

/-- The level that an empty text describes. -/
def standard : Level := ⟨1, none, none, Timing.standard, ""⟩

def alike (first second : Level) : Bool :=
  first.number == second.number && first.name == second.name &&
    first.description == second.description && first.timing.alike second.timing &&
    first.body == second.body

/-- A lenience is a finite number of beats that is not negative. -/
def checkLenience (beats : Float) : Except FrontMatterFault Unit :=
  if !beats.isFinite || beats < 0 then .error (.lenience beats) else .ok ()

/-- Fields are read from a mapping or not at all. -/
def mappedFields (text : List Char) : Except FrontMatterFault LevelFields :=
  match LevelFields.read? text with
  | some fields => .ok fields
  | none => .error .unreadable

/-- The fields of a level, given a reader for the text that holds them. Blank front matter has none.
-/
def readFieldsWith (reader : List Char → Except FrontMatterFault LevelFields) :
    Option (List Char) → Except FrontMatterFault LevelFields
  | none => .ok .none
  | some text => if allBlank text then .ok .none else reader text

/-- A level is made from the fields of its front matter and its body. -/
def ofFields (fields : LevelFields) (body : List Char) : Except FrontMatterFault Level := do
  let timing : Timing :=
    ⟨fields.tempo.getD Timing.standard.tempo, fields.lenience.getD Timing.standard.lenience⟩
  checkLenience timing.lenience
  return ⟨fields.number.getD 1, fields.name, fields.description, timing,
    String.ofList (trim body)⟩

/-- A level is read from text, given a reader for its fields. Its score is not looked into. -/
def readWith (reader : List Char → Except FrontMatterFault LevelFields) (source : String) :
    Except FrontMatterFault Level := do
  let (block, body) ← FrontMatter.split source.toList
  let fields ← readFieldsWith reader block
  ofFields fields body

/-- A level is read from text with a mapping for its fields. -/
def read (source : String) : Except FrontMatterFault Level :=
  readWith mappedFields source

/-- A level without a score plays one measure of clicks in the common meter. -/
def clicks : Score :=
  (Measure.clickTrack .common).toOption.toList

theorem clicks_length : clicks.length = 1 := by
  decide +kernel

def score (level : Level) : Except ReadError Score :=
  if level.body.isEmpty then .ok clicks else Score.read level.body

def schedule (level : Level) (start : Float) : Except ReadError (List Tap) := do
  return (← level.score).schedule level.timing start

def windows (level : Level) (start : Float) : Except ReadError (List Window) := do
  return (← level.score).windows level.timing start

/-- The windows of the level that a text describes, given a reader for its fields. -/
def windowsWith (reader : List Char → Except FrontMatterFault LevelFields) (source : String)
    (start : Float) : Except LevelError (List Window) := do
  let level ← (readWith reader source).mapError .frontMatter
  (level.windows start).mapError .score

def windowsOf (source : String) (start : Float) : Except LevelError (List Window) :=
  windowsWith mappedFields source start

end Level

def Score.windowsOf (source : String) (timing : Timing) (start : Float) :
    Except ReadError (List Window) := do
  return (← Score.read source).windows timing start

end Rhythm
