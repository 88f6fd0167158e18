import Rhythm.Yaml.Space

/-
This file reads the scalars of YAML that stand inside a line: plain ones, and those between single
or double quotes. Each of them may go on over the following lines, and is then folded. The mark of
a document ends a plain scalar, and must not start a line of a quoted one.
-/

namespace Rhythm.Yaml

/-- What lies between two words of a scalar. -/
inductive Gap where
  /-- Spaces and tabs on one line. -/
  | blanks (text : List Char)
  /-- Line ends and the blanks around them. The first line end is missing after a backslash. -/
  | breaks (first others : List Char)
  deriving DecidableEq

namespace Gap

def empty : Gap := .blanks []

/-- Blanks around a line end do not count. -/
def blank (character : Char) : Gap → Gap
  | blanks text => blanks (text ++ [character])
  | gap => gap

/-- One more line end belongs to the gap. -/
def lineEnd (character : Char) : Gap → Gap
  | blanks _ => breaks [character] []
  | breaks first others => breaks first (others ++ [character])

def isBroken : Gap → Bool
  | blanks _ => false
  | breaks _ _ => true

/-- A line feed followed by text is folded into a space, and one followed by other line ends
vanishes. All other line ends are kept. -/
def text : Gap → List Char
  | blanks text => text
  | breaks ['\n'] [] => [' ']
  | breaks ['\n'] others => others
  | breaks first others => first ++ others

end Gap

/-- A single quote ends a scalar in single quotes, and two of them stand for one. -/
def readSingle : Gap → List Char → Scanned
  | _, [] => none
  | gap, '\'' :: '\'' :: rest => (readSingle .empty rest).after (gap.text ++ ['\''])
  | gap, '\'' :: rest => some (gap.text, rest)
  | gap, character :: rest =>
      if isBreak character then
        if startsMark rest then none else readSingle (gap.lineEnd character) rest
      else if isGap character then readSingle (gap.blank character) rest
      else (readSingle .empty rest).after (gap.text ++ [character])

/-- The characters that stand for others after a backslash. -/
def escapes : List (Char × Nat) :=
  [('0', 0x00), ('a', 0x07), ('b', 0x08), ('t', 0x09), ('\t', 0x09), ('n', 0x0A), ('v', 0x0B),
    ('f', 0x0C), ('r', 0x0D), ('e', 0x1B), (' ', 0x20), ('"', 0x22), ('/', 0x2F),
    ('\\', 0x5C), ('N', 0x85), ('_', 0xA0), ('L', 0x2028), ('P', 0x2029)]

/-- The number of hexadecimal digits that follow a letter after a backslash. -/
def codeLengths : List (Char × Nat) :=
  [('x', 2), ('u', 4), ('U', 8)]

def characterOf? (code : Nat) : Option Char :=
  if code.isValidChar then some (Char.ofNat code) else none

/-- What the next character means in a scalar in double quotes. -/
inductive Mode where
  /-- It stands for itself. -/
  | direct
  /-- It comes after a backslash. -/
  | escape
  /-- It is one of so many hexadecimal digits, after others with the given value. -/
  | code (left value : Nat)

/-- A double quote ends a scalar in double quotes, unless a backslash stands before it. -/
def readDouble : Mode → Gap → List Char → Scanned
  | _, _, [] => none
  | .direct, gap, character :: rest =>
      if isBreak character then
        if startsMark rest then none else readDouble .direct (gap.lineEnd character) rest
      else if isGap character then readDouble .direct (gap.blank character) rest
      else if character = '"' then some (gap.text, rest)
      else if character = '\\' then (readDouble .escape .empty rest).after gap.text
      else (readDouble .direct .empty rest).after (gap.text ++ [character])
  | .escape, gap, character :: rest =>
      if isBreak character then
        if startsMark rest then none else readDouble .direct (.breaks [] []) rest
      else
        match codeLengths.lookup character, (escapes.lookup character).bind characterOf? with
        | some left, _ => readDouble (.code left 0) gap rest
        | none, some meant => (readDouble .direct .empty rest).after [meant]
        | none, none => none
  | .code left value, gap, character :: rest =>
      match hexDigit? character with
      | none => none
      | some digit =>
          let code := 16 * value + digit
          if 1 < left then readDouble (.code (left - 1) code) gap rest
          else
            match characterOf? code with
            | some meant => (readDouble .direct .empty rest).after [meant]
            | none => none

/-- The characters that structure a flow collection. -/
def flowMarks : List Char := [',', '[', ']', '{', '}']

/-- Whether a plain scalar ends before a character. -/
def endsPlain (flow : Bool) (character : Char) (rest : List Char) : Bool :=
  (character == ':' && gapNext rest) || (flow && flowMarks.contains character)

/-- Inside a flow collection a colon must not stand right before a mark. -/
def clashes (flow : Bool) (character : Char) (rest : List Char) : Bool :=
  flow && character == ':' && rest.head?.any ('?' :: flowMarks).contains

/-- A plain scalar with the text behind it. -/
structure Plain where
  text : List Char
  /-- Whether a line ended between the scalar and the text behind it. -/
  broken : Bool
  rest : List Char

/-- More text is put in front of a plain scalar. -/
def Plain.after (text : List Char) (plain : Plain) : Plain :=
  { plain with text := text ++ plain.text }

/-- A plain scalar goes on over the lines that are indented far enough, or over all of them in a
flow collection. A comment ends it. The gap read so far and the column on a new line are given. -/
def readPlain (flow : Bool) (indent : Nat) : Gap → Nat → List Char → Option Plain
  | gap, _, [] => some ⟨[], gap.isBroken, []⟩
  | gap, column, character :: rest =>
      let outside := gap.isBroken && column < indent
      if isBreak character then
        if startsMark rest then some ⟨[], true, rest⟩
        else readPlain flow indent (gap.lineEnd character) 0 rest
      else if character = '\t' ∧ outside then none
      else if isGap character then readPlain flow indent (gap.blank character) (column + 1) rest
      else if (outside && !flow) || (character == '#' && gap ≠ .empty) ||
          endsPlain flow character rest then
        some ⟨[], gap.isBroken, character :: rest⟩
      else if clashes flow character rest then none
      else (readPlain flow indent .empty 0 rest).map (Plain.after (gap.text ++ [character]))

end Rhythm.Yaml
