import Rhythm.Yaml.Space

/-
This file reads the block scalars of YAML, which are runs of indented lines. A literal one keeps
its line ends, and a folded one joins its lines by spaces.
-/

namespace Rhythm.Yaml

/-- What happens to the line ends after the last line of a block scalar. -/
inductive Chomping where
  /-- One of them is kept. -/
  | clip
  /-- None of them is kept. -/
  | strip
  /-- All of them are kept. -/
  | keep

/-- The header of a block scalar. -/
structure Header where
  chomping : Chomping
  /-- The indentation of the lines, counted from that of the parent. -/
  indent? : Option Nat

namespace Header

/-- A plus sign keeps the last line ends and a hyphen strips them. -/
def cutChomping : List Char → Option Chomping × List Char
  | '+' :: rest => (some .keep, rest)
  | '-' :: rest => (some .strip, rest)
  | text => (none, text)

/-- The indentation is a positive digit. -/
def cutIndent : List Char → Option Nat × List Char
  | [] => (none, [])
  | character :: rest =>
      if '1' ≤ character ∧ character ≤ '9' then (some (character.toNat - '0'.toNat), rest)
      else (none, character :: rest)

/-- The chomping and the indentation may come in either order, and a comment may follow them. -/
def read? (line : List Char) : Option Header :=
  let (before, afterFirst) := cutChomping line
  let (indent?, afterIndent) := cutIndent afterFirst
  let (behind, afterLast) := if before.isSome then (none, afterIndent) else cutChomping afterIndent
  match afterLast.dropWhile isGap with
  | [] => some ⟨(before.or behind).getD .clip, indent?⟩
  | character :: _ =>
      if character = '#' then some ⟨(before.or behind).getD .clip, indent?⟩ else none

end Header

/-- The indentation is that of the first line that holds more than spaces, or that of a longer line
of spaces before it, but at least a given one. A tab must not come right after the indentation. -/
def detectIndent (least column : Nat) : List Char → Option Nat
  | [] => some (max least column)
  | character :: rest =>
      if character = ' ' then detectIndent least (column + 1) rest
      else if character = '\t' then none
      else if isBreak character then detectIndent (max least column) 0 rest
      else some (max least column)

/-- The state of a block scalar between two lines. -/
structure BlockState where
  /-- The end of the last line of text. -/
  first : List Char
  /-- The ends of the empty lines since. -/
  others : List Char
  /-- Whether the last line of text started with a blank. -/
  blankStart : Bool

namespace BlockState

def start : BlockState := ⟨[], [], false⟩

/-- The line ends before a line of text. A folded scalar joins two lines by a space unless one of
them starts with a blank. -/
def between (state : BlockState) (folded blank : Bool) : List Char :=
  if folded && state.first == ['\n'] && !state.blankStart && !blank then
    if state.others = [] then [' '] else state.others
  else state.first ++ state.others

/-- The line ends after the last line of text. -/
def last (state : BlockState) : Chomping → List Char
  | .strip => []
  | .clip => state.first
  | .keep => state.first ++ state.others

end BlockState

/-- Where the reading of a block scalar stands on a line. -/
inductive Column where
  /-- After so many spaces. -/
  | margin (spaces : Nat)
  /-- In the text of the line. -/
  | inside

/-- The lines of a block scalar are gathered up to the first one that is indented too little. -/
def gatherLines (folded : Bool) (chomping : Chomping) (indent : Nat) :
    BlockState → Column → List Char → Scanned
  | state, _, [] => some (state.last chomping, [])
  | state, .inside, character :: rest =>
      if isBreak character then
        gatherLines folded chomping indent { state with first := [character] } (.margin 0) rest
      else (gatherLines folded chomping indent state .inside rest).after [character]
  | state, .margin spaces, character :: rest =>
      if isBreak character then
        gatherLines folded chomping indent { state with others := state.others ++ [character] }
          (.margin 0) rest
      else if spaces < indent then
        if character = ' ' then
          gatherLines folded chomping indent state (.margin (spaces + 1)) rest
        else if character = '\t' then none
        else some (state.last chomping, character :: rest)
      else
        let blank := isGap character
        (gatherLines folded chomping indent ⟨[], [], blank⟩ .inside rest).after
          (state.between folded blank ++ [character])

/-- A block scalar is read after its mark. Its lines are indented deeper than its parent, if it has
one. -/
def readBlock (folded : Bool) (parent : Option Nat) (text : List Char) : Scanned := do
  let header ← Header.read? (text.takeWhile fun character => !isBreak character)
  let lines := (text.dropWhile fun character => !isBreak character).drop 1
  let indent ← match header.indent? with
    | some more => some (parent.getD 0 + more)
    | none => detectIndent (parent.getD 0 + 1) 0 lines
  gatherLines folded header.chomping indent .start (.margin 0) lines

end Rhythm.Yaml
