/-
This file decides what separates words and lines in YAML.
-/

namespace Rhythm.Yaml

/-- Spaces and tabs separate words on a line. -/
def isGap (character : Char) : Bool :=
  character == ' ' || character == '\t'

/-- The line separators of Unicode end lines like a line feed. -/
def isBreak (character : Char) : Bool :=
  ['\n', '\u2028', '\u2029'].contains character

/-- A line feed stands for the carriage returns and the next line characters that end lines too. -/
def plainLineEnds : List Char → List Char
  | '\r' :: '\n' :: rest => '\n' :: plainLineEnds rest
  | character :: rest =>
      (if character = '\r' ∨ character = '\x85' then '\n' else character) :: plainLineEnds rest
  | [] => []

/-- The characters that may stand in a document. -/
def isPrintable (character : Char) : Bool :=
  let code := character.toNat
  code == 0x09 || code == 0x0A || (0x20 ≤ code && code ≤ 0x7E) ||
    (0xA0 ≤ code && code ≤ 0xD7FF) || (0xE000 ≤ code && code ≤ 0xFFFD) || 0x10000 ≤ code

/-- Whether a gap, a line end or the end of the text comes next. -/
def gapNext (text : List Char) : Bool :=
  text.head?.all fun character => isGap character || isBreak character

/-- Three hyphens start a document, and three points end one. -/
def startsMark (text : List Char) : Bool :=
  (text.take 3 == "---".toList || text.take 3 == "...".toList) && gapNext (text.drop 3)

def hexDigit? (character : Char) : Option Nat :=
  if character.isDigit then some (character.toNat - '0'.toNat)
  else if 'a' ≤ character ∧ character ≤ 'f' then some (character.toNat - 'a'.toNat + 10)
  else if 'A' ≤ character ∧ character ≤ 'F' then some (character.toNat - 'A'.toNat + 10)
  else none

/-- A piece is read from the front of a text, and the rest of the text follows it. -/
abbrev Scanned := Option (List Char × List Char)

/-- More text is put in front of a piece. -/
def Scanned.after (text : List Char) (scanned : Scanned) : Scanned :=
  scanned.map fun found => (text ++ found.1, found.2)

end Rhythm.Yaml
