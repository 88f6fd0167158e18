import Rhythm.Text.Blank

/-
This file trims texts and cuts them into lines, words and fields. The main statement is `cutAt_eq`,
that a cut loses only its separator.
-/

namespace Rhythm.Text

def trimStart (text : List Char) : List Char :=
  text.dropWhile isBlank

def trimEnd (text : List Char) : List Char :=
  (text.reverse.dropWhile isBlank).reverse

/-- The text without the blanks at its two ends. -/
def trim (text : List Char) : List Char :=
  trimEnd (trimStart text)

def squeeze (text : List Char) : List Char :=
  text.filter fun character => !isBlank character

/-- The words of a text are its longest runs without a blank. -/
def words (text : List Char) : List (List Char) :=
  (text.splitOnP isBlank).filter fun word => !word.isEmpty

/-- The text is cut at the first occurrence of a character, which is left out. -/
def cutAt (separator : Char) : List Char → Option (List Char × List Char)
  | [] => none
  | character :: rest =>
      if character = separator then some ([], rest)
      else (cutAt separator rest).map fun cut => (character :: cut.1, cut.2)

/-- The text loses one last character if it is the given one. -/
def dropLast? (last : Char) (text : List Char) : Option (List Char) :=
  if text.getLast? = some last then some text.dropLast else none

/-- A line that a line feed ends loses one carriage return before the line feed. -/
def dropReturn (line : List Char) : List Char :=
  (dropLast? '\r' line).getD line

/-- The pieces between line feeds are lines, and an empty piece after the last line feed is none.
The last piece keeps a carriage return, since no line feed follows it. -/
def closeLines : List (List Char) → List (List Char)
  | [] => []
  | [last] => if last.isEmpty then [] else [last]
  | line :: rest => dropReturn line :: closeLines rest

/-- The lines of a text. -/
def lines (text : List Char) : List (List Char) :=
  closeLines (text.splitOn '\n')

def unlines (lines : List (List Char)) : List Char :=
  ['\n'].intercalate lines

theorem cutAt_eq {separator : Char} {text before after : List Char}
    (found : cutAt separator text = some (before, after)) :
    text = before ++ separator :: after ∧ separator ∉ before := by
  induction text generalizing before with
  | nil => simp [cutAt] at found
  | cons character rest inductionHypothesis =>
      by_cases same : character = separator
      · simp only [cutAt, same, if_true, Option.some.injEq, Prod.mk.injEq] at found
        obtain ⟨rfl, rfl⟩ := found
        simp [same]
      · simp only [cutAt, same, if_false, Option.map_eq_some_iff, Prod.mk.injEq] at found
        obtain ⟨⟨head, tail⟩, cut, rfl, rfl⟩ := found
        obtain ⟨equation, fresh⟩ := inductionHypothesis cut
        refine ⟨by rw [equation]; rfl, ?_⟩
        simp [fresh, Ne.symm same]

end Rhythm.Text
