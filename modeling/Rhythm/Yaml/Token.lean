import Rhythm.Text.Numeral
import Rhythm.Yaml.Space

/-
This file holds the tokens of YAML documents, and reads names, tags and directives.
-/

namespace Rhythm.Yaml

/-- How a scalar is written. -/
inductive Form where
  | plain
  /-- As the lines of a block, which keep their ends. -/
  | literal
  /-- In quotes, or as the lines of a block that are folded. -/
  | other
  deriving DecidableEq

/-- A document is a sequence of tokens. Indentation opens and closes block collections, and
brackets open and close flow collections. -/
inductive Token where
  /-- The version of the format is named. -/
  | version
  /-- Tags may start with a short handle in place of a longer text. -/
  | handle (short long : List Char)
  | documentStart
  | documentEnd
  | blockSequence
  | blockMapping
  /-- A block collection ends. -/
  | blockEnd
  /-- An item of a block sequence follows. -/
  | item
  | flowSequence
  | flowSequenceEnd
  | flowMapping
  | flowMappingEnd
  /-- Another entry of a flow collection may follow. -/
  | comma
  /-- The key of an entry follows. -/
  | key
  /-- The value of an entry follows. -/
  | value
  /-- A node gets a name. -/
  | anchor (name : List Char)
  /-- The node with a name is meant. -/
  | reference (name : List Char)
  /-- A node gets a tag. The handle of a tag in full is empty. -/
  | tag (handle text : List Char)
  | scalar (text : List Char) (form : Form)
  deriving DecidableEq

namespace Token

/-- Directives stand before the start of a document. -/
def isDirective : Token → Bool
  | version | handle _ _ => true
  | _ => false

end Token

/-- Names consist of letters, digits, low lines and hyphens. -/
def isNameCharacter (character : Char) : Bool :=
  character.isAlphanum || character == '_' || character == '-'

/-- A gap or one of these marks follows a name. -/
def nameEnds (text : List Char) : Bool :=
  gapNext text || text.head?.any ['?', ':', ',', ']', '}', '%', '@', '\x60'].contains

/-- The name after the mark of an anchor or a reference. -/
def readName (text : List Char) : Scanned :=
  let (name, rest) := text.span isNameCharacter
  if name ≠ [] ∧ nameEnds rest then some (name, rest) else none

/-- Tags consist of these characters, apart from those of names and from escaped ones. -/
def tagMarks : List Char :=
  [';', '/', '?', ':', '@', '&', '=', '+', '$', '.', '!', '~', '*', '\'', '(', ')']

/-- A tag between angle brackets may have commas and square brackets in it. -/
def isTagCharacter (bracketed : Bool) (character : Char) : Bool :=
  isNameCharacter character || tagMarks.contains character ||
    (bracketed && [',', '[', ']'].contains character)

/-- An octet is written with a percent sign and two hexadecimal digits. -/
def octet? (first second : Char) : Option Nat := do
  return 16 * (← hexDigit? first) + (← hexDigit? second)

/-- The number of octets that follow the first one of a character in the encoding UTF-8. -/
def followers? (octet : Nat) : Option Nat :=
  if octet < 0x80 then some 0
  else if octet < 0xC0 then none
  else if octet < 0xE0 then some 1
  else if octet < 0xF0 then some 2
  else if octet < 0xF8 then some 3
  else none

/-- The longest piece of a tag, while so many octets of a character are still due. -/
def readTagText (bracketed : Bool) : Nat → List Char → Scanned
  | due, '%' :: first :: second :: rest => do
      let octet ← octet? first second
      let left ← match due with
        | 0 => followers? octet
        | due + 1 => if 0x80 ≤ octet ∧ octet < 0xC0 then some due else none
      (readTagText bracketed left rest).after [Char.ofNat octet]
  | 0, character :: rest =>
      if character = '%' then none
      else if isTagCharacter bracketed character then
        (readTagText bracketed 0 rest).after [character]
      else some ([], character :: rest)
  | 0, [] => some ([], [])
  | _ + 1, _ => none

/-- The longest piece of a tag, which must not be empty. -/
def readTagPiece (bracketed : Bool) (text : List Char) : Scanned :=
  (readTagText bracketed 0 text).filter fun found => !found.1.isEmpty

/-- A token is read from the front of a text, and the rest of the text follows it. -/
abbrev TokenScanned := Option (Token × List Char)

/-- The tag after its exclamation mark. It is written in full between angle brackets. Otherwise it
starts with a handle, which is one exclamation mark or ends in a second one. -/
def readTag : List Char → TokenScanned
  | '<' :: rest =>
      match readTagPiece true rest with
      | some (text, '>' :: left) => some (.tag [] text, left)
      | _ => none
  | text =>
      match text.span isNameCharacter with
      | (name, '!' :: rest) =>
          (readTagPiece false rest).map fun found =>
            (.tag ('!' :: name ++ ['!']) found.1, found.2)
      | (name, rest) =>
          ((readTagText false 0 rest).after name).map fun found =>
            (if found.1.isEmpty then .tag [] ['!'] else .tag ['!'] found.1, found.2)

/-- A part of a version has up to nine digits. -/
def readVersionPart? (text : List Char) : Option (Nat × List Char) :=
  let (digits, rest) := text.span Char.isDigit
  if digits.length ≤ 9 then (Text.Numeral.read? digits).map fun number => (number, rest) else none

/-- The versions 1.1 and 1.2 of the format are known. -/
def readVersion (text : List Char) : TokenScanned :=
  match readVersionPart? (text.dropWhile isGap) with
  | some (1, '.' :: rest) =>
      match readVersionPart? rest with
      | some (minor, left) => if minor = 1 ∨ minor = 2 then some (.version, left) else none
      | none => none
  | _ => none

/-- A handle is given the text that it stands for. -/
def readHandle (text : List Char) : TokenScanned :=
  match text.dropWhile isGap with
  | '!' :: rest => do
      let (name, afterName) := rest.span isNameCharacter
      let (short, left) ← match afterName with
        | '!' :: left => some ('!' :: name ++ ['!'], left)
        | left => if name.isEmpty then some (['!'], left) else none
      if left.head?.any isGap then
        let (long, behind) ← readTagPiece true (left.dropWhile isGap)
        if gapNext behind then some (.handle short long, behind) else none
      else none
  | _ => none

def readDirective (text : List Char) : TokenScanned :=
  let (name, rest) := text.span isNameCharacter
  if name = "YAML".toList ∧ gapNext rest then readVersion rest
  else if name = "TAG".toList ∧ gapNext rest then readHandle rest
  else none

end Rhythm.Yaml
