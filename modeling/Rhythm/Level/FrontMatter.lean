import Rhythm.Text.Line
import Rhythm.Timing
import Rhythm.Yaml.Document
import Rhythm.Yaml.Field

/-
This file splits a level into its front matter and its body, and reads the fields of the front
matter. The front matter stands between two marker lines above or below the body.
-/

namespace Rhythm

open Rhythm.Text

/-- This type says what is wrong with the front matter of a level. -/
inductive FrontMatterFault where
  /-- The marker line with this number is the only one. -/
  | unclosed (line : Nat)
  /-- The line with this number is a third marker line. -/
  | repeated (line : Nat)
  /-- The body stands on both sides. -/
  | enclosed
  /-- The fields cannot be read. -/
  | unreadable
  /-- The lenience is negative or not finite. -/
  | lenience (beats : Float)

def frontMatterMarker : String := "---"

/-- This is what is wrong, in words. Unreadable fields have no wording of their own. -/
def FrontMatterFault.wording? : FrontMatterFault → Option String
  | unclosed line =>
      some ("Front matter opened on line " ++ toString line ++ " is never closed with '" ++
        frontMatterMarker ++ "'")
  | repeated line =>
      some ("Unexpected '" ++ frontMatterMarker ++ "' on line " ++ toString line ++
        ": a level has a single front matter block")
  | enclosed => some "Front matter must come before or after the notation, not in the middle"
  | unreadable => none
  | lenience beats =>
      some ("Invalid lenience-beats: " ++ Decimal.plainText beats ++
        " (expected a non-negative number)")

/-- A fault of front matter is invalid metadata. -/
def FrontMatterFault.message? (fault : FrontMatterFault) : Option String :=
  fault.wording?.map fun wording => "Invalid metadata: " ++ wording

namespace FrontMatter

/-- A marker line holds the marker and nothing else but blanks. -/
def isMarker (line : List Char) : Bool :=
  trim line == frontMatterMarker.toList

def markers (lines : List (List Char)) : List Nat :=
  (lines.zipIdx.filter fun line => isMarker line.1).map Prod.snd

/-- The lines of the front matter and of the body, given the indices of two marker lines. -/
def splitAt (lines : List (List Char)) (opening closing : Nat) :
    Except FrontMatterFault (List (List Char) × List (List Char)) :=
  let above := lines.take opening
  let below := lines.drop (closing + 1)
  let block := (lines.take closing).drop (opening + 1)
  if above.all allBlank then .ok (block, below)
  else if below.all allBlank then .ok (block, above)
  else .error .enclosed

/-- A text is split into its front matter, if it has any, and its body. -/
def split (text : List Char) : Except FrontMatterFault (Option (List Char) × List Char) :=
  let lines := lines text
  match markers lines with
  | [] => .ok (none, text)
  | [opening] => .error (.unclosed (opening + 1))
  | [opening, closing] =>
      (splitAt lines opening closing).map fun parts => (some (unlines parts.1), unlines parts.2)
  | _ :: _ :: third :: _ => .error (.repeated (third + 1))

end FrontMatter

/-- The fields of front matter, each of which may be left out. -/
structure LevelFields where
  number : Option UInt32
  name : Option String
  description : Option String
  tempo : Option Float
  lenience : Option Float

namespace LevelFields

def none : LevelFields := ⟨.none, .none, .none, .none, .none⟩

def keys : List (List Char) :=
  ["level-number".toList, "level-name".toList, "description".toList, "tempo".toList,
    "lenience-beats".toList]

/-- The fields are read from a mapping that has no other keys. -/
def read? (text : List Char) : Option LevelFields := do
  let mapping ← Yaml.readMapping? text
  if mapping.all (fun entry => keys.contains entry.1) && Yaml.unrepeated keys mapping then
    let number ← Yaml.readOptional? mapping "level-number" Yaml.Value.word?
    let name ← Yaml.readOptional? mapping "level-name" Yaml.Value.text?
    let description ← Yaml.readOptional? mapping "description" Yaml.Value.text?
    let tempo ← Yaml.readOptional? mapping "tempo" Yaml.Value.float?
    let lenience ← Yaml.readOptional? mapping "lenience-beats" Yaml.Value.float?
    return ⟨number, name, description, tempo, lenience⟩
  else failure

end LevelFields

/-- The value of a key that may be left out, but not be absent. -/
def Timing.readField? (mapping : Yaml.Mapping) (key : String) (default : Float) : Option Float :=
  match mapping.lookup key.toList with
  | some value => value.float?
  | none => some default

/-- A timing is read from a mapping, which may have other keys. -/
def Timing.read? (text : List Char) : Option Timing := do
  let mapping ← Yaml.readMapping? text
  if Yaml.unrepeated ["tempo".toList, "lenience-beats".toList] mapping then
    let tempo ← Timing.readField? mapping "tempo" standard.tempo
    let lenience ← Timing.readField? mapping "lenience-beats" standard.lenience
    return ⟨tempo, lenience⟩
  else failure

end Rhythm
