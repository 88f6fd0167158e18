import Rhythm.Level
import Rhythm.Proofs.Level.FrontMatter
import Rhythm.Proofs.Score.Lines

/-
This file shows that a level is the same whether its front matter stands above or below its score,
and that it plays that score. The main statement is `Level.placement_exact`.
-/

namespace Rhythm

open FrontMatter Outcome Text

/-- A block of front matter has its lines between two markers. -/
structure Block where
  opening : List Char
  inner : List (List Char)
  closing : List Char
  opens : isMarker opening = true
  closes : isMarker closing = true
  unmarked : Unmarked inner
  unbroken : ∀ line ∈ opening :: (inner ++ [closing]), '\n' ∉ line

namespace Block

def text (block : Block) : List Char :=
  unlines (block.opening :: (block.inner ++ [block.closing]))

/-- What stands between the markers of a block. -/
def contents (block : Block) : List Char :=
  unlines (block.inner.map dropReturn)

/-- A block stands between two texts when it takes up whole lines. -/
structure StandsBetween (block : Block) (before after whole : List Char) : Prop where
  whole_eq : whole = before ++ block.text ++ after
  before_ends : before = [] ∨ before.getLast? = some '\n'
  after_starts : after = [] ∨ after.head? = some '\n'

/-- A block stands above a score when nothing else but blanks is around the two. -/
def StandsAbove (block : Block) (score source : String) : Prop :=
  ∃ before after, block.StandsBetween before after source.toList ∧
    allBlank before = true ∧ trim after = trim score.toList

/-- A block stands below a score when nothing else but blanks is around the two. -/
def StandsBelow (block : Block) (score source : String) : Prop :=
  ∃ before after, block.StandsBetween before after source.toList ∧
    trim before = trim score.toList ∧ allBlank after = true

variable {block : Block} {before after whole : List Char}

/-- A score may follow its block on the next line. -/
theorem standsAbove_append (block : Block) (score : String) :
    block.StandsAbove score (String.ofList (block.text ++ '\n' :: score.toList)) := by
  refine ⟨[], '\n' :: score.toList, ⟨?_, .inl rfl, .inr rfl⟩, rfl, trim_cons (by decide)⟩
  rw [String.toList_ofList, List.nil_append]

/-- A block may follow its score on the next line. -/
theorem standsBelow_append (block : Block) (score : String) :
    block.StandsBelow score (String.ofList (score.toList ++ '\n' :: block.text)) := by
  refine ⟨score.toList ++ ['\n'], [], ⟨?_, .inr (by simp), .inl rfl⟩,
    trim_append_margin (by decide), rfl⟩
  rw [String.toList_ofList]
  simp

theorem splitOn_text (block : Block) :
    block.text.splitOn '\n' = block.opening :: (block.inner ++ [block.closing]) :=
  List.splitOn_intercalate '\n' block.unbroken (List.cons_ne_nil _ _)

/-- The lines of the whole are those before the block, its own and those after it. -/
theorem StandsBetween.splitOn (stands : block.StandsBetween before after whole) :
    ∃ upper lower, before.splitOn '\n' = upper ++ [[]] ∧ after.splitOn '\n' = [] :: lower ∧
      whole.splitOn '\n' =
        upper ++ block.opening :: (block.inner ++ block.closing :: lower) := by
  obtain ⟨rfl, ends, starts⟩ := stands
  obtain ⟨upper, above⟩ : ∃ upper, before.splitOn '\n' = upper ++ [[]] := by
    obtain rfl | feed := ends
    · exact ⟨[], rfl⟩
    · obtain ⟨front, rfl⟩ := List.getLast?_eq_some_iff.mp feed
      exact ⟨front.splitOn '\n', by rw [List.splitOn_append_cons_self, List.splitOn_nil]⟩
  obtain ⟨lower, below⟩ : ∃ lower, after.splitOn '\n' = [] :: lower := by
    obtain rfl | feed := starts
    · exact ⟨[], rfl⟩
    · obtain ⟨back, rfl⟩ := List.head?_eq_some_iff.mp feed
      exact ⟨back.splitOn '\n', by rw [List.splitOn_cons_eq_if_modifyHead, if_pos (by rfl)]⟩
  refine ⟨upper, lower, above, below, ?_⟩
  have front := splitOn_append above block.splitOn_text
  rw [List.nil_append, ← List.cons_append, ← List.append_assoc] at front
  rw [splitOn_append front below, List.append_nil]
  simp

/-- A text is split at a block that has blanks on one of its sides. The body is the other side. -/
theorem StandsBetween.split (stands : block.StandsBetween before after whole)
    (beforeUnmarked : Unmarked (before.splitOn '\n'))
    (afterUnmarked : Unmarked (after.splitOn '\n'))
    (blank : allBlank before = true ∨ allBlank after = true) :
    ∃ body, split whole = .ok (some block.contents, body) ∧
      trim body = tidied (if allBlank before then after.splitOn '\n' else before.splitOn '\n') := by
  obtain ⟨upper, lower, above, below, lines⟩ := stands.splitOn
  rw [above, unmarked_concat] at beforeUnmarked
  rw [below, unmarked_cons] at afterUnmarked
  have upperBlank : upper.all allBlank = allBlank before := by
    rw [← all_allBlank_splitOn before, above, List.all_append]
    exact (Bool.and_true _).symm
  have lowerBlank : lower.all allBlank = allBlank after := by
    rw [← all_allBlank_splitOn after, below]
    rfl
  have cut : Cut (whole.splitOn '\n') upper block.inner lower :=
    ⟨⟨block.opening, block.closing, lines, block.opens, block.closes⟩, beforeUnmarked.1,
      block.unmarked, afterUnmarked.2⟩
  rw [split_of_cut cut, upperBlank, lowerBlank, above, below]
  by_cases beforeBlank : allBlank before = true
  · rw [if_pos beforeBlank, if_pos beforeBlank, tidied_nil_cons]
    exact ⟨_, rfl, trim_unlines_closeLines lower⟩
  · rw [if_neg beforeBlank, if_neg beforeBlank, if_pos (blank.resolve_left beforeBlank),
      tidied_concat_nil]
    exact ⟨_, rfl, rfl⟩

end Block

namespace Level

def withBody (level : Level) (body : List Char) : Level :=
  { level with body := String.ofList body }

/-- Only the last text is kept. -/
theorem map_withBody_withBody (outcome : Except FrontMatterFault Level) (first second : List Char) :
    (outcome.map (withBody · first)).map (withBody · second) = outcome.map (withBody · second) := by
  cases outcome <;> rfl

/-- The level that a block describes, without a score. -/
def header (reader : List Char → Except FrontMatterFault LevelFields) (block : Block) :
    Except FrontMatterFault Level := do
  let fields ← readFieldsWith reader (some block.contents)
  ofFields fields []

section Placement

variable {reader : List Char → Except FrontMatterFault LevelFields} {block : Block}
  {score source : String} {body : List Char}

/-- The body of a level is trimmed and kept, and nothing else depends on it. -/
theorem ofFields_eq (fields : LevelFields) (body : List Char) :
    ofFields fields body = (ofFields fields []).map (withBody · (trim body)) := by
  rw [ofFields, ofFields]
  cases checkLenience _ <;> rfl

theorem header_withBody (reader : List Char → Except FrontMatterFault LevelFields)
    (block : Block) : (header reader block).map (withBody · []) = header reader block := by
  rw [header]
  cases readFieldsWith reader (some block.contents) with
  | error fault => rfl
  | ok fields => exact (ofFields_eq fields []).symm

/-- A level has its header from the block alone and its body from the rest. -/
theorem readWith_of_split (made : split source.toList = .ok (some block.contents, body)) :
    readWith reader source = (header reader block).map (withBody · (trim body)) := by
  rw [readWith, made, header]
  change (readFieldsWith reader (some block.contents) >>= fun fields => ofFields fields body) = _
  cases readFieldsWith reader (some block.contents) with
  | error fault => rfl
  | ok fields => exact ofFields_eq fields body

/-- A level with its block above its score is made from the two apart. -/
theorem readWith_of_above (stands : block.StandsAbove score source)
    (unmarked : Unmarked (score.toList.splitOn '\n')) :
    readWith reader source =
      (header reader block).map (withBody · (tidied (score.toList.splitOn '\n'))) := by
  obtain ⟨before, after, between, blank, same⟩ := stands
  obtain ⟨body, made, trimmed⟩ := between.split (unmarked_of_blank blank)
    (unmarked_of_trim_eq same.symm unmarked) (.inl blank)
  rw [readWith_of_split made, trimmed, if_pos blank, tidied_of_trim_eq same]

/-- A level with its block below its score is made from the two apart. -/
theorem readWith_of_below (stands : block.StandsBelow score source)
    (unmarked : Unmarked (score.toList.splitOn '\n')) :
    readWith reader source =
      (header reader block).map (withBody · (tidied (score.toList.splitOn '\n'))) := by
  obtain ⟨before, after, between, same, blank⟩ := stands
  obtain ⟨body, made, trimmed⟩ := between.split (unmarked_of_trim_eq same.symm unmarked)
    (unmarked_of_blank blank) (.inr blank)
  rw [readWith_of_split made, trimmed, ← tidied_of_trim_eq same]
  split_ifs with beforeBlank
  · -- Both sides are blank here, so the level has no score either way.
    rw [tidied_eq_nil_iff.mpr ((all_allBlank_splitOn after).trans blank),
      tidied_eq_nil_iff.mpr ((all_allBlank_splitOn before).trans beforeBlank)]
  · rfl

/-- The clicks are one measure. -/
theorem exists_clicks :
    ∃ measure, Measure.clickTrack .common = .ok measure ∧ clicks = [measure] := by
  cases made : Measure.clickTrack .common with
  | error fault =>
      have single := clicks_length
      rw [clicks, made] at single
      cases single
  | ok measure => exact ⟨measure, rfl, by rw [clicks, made]; rfl⟩

/-- A level plays the score that its body was made from. -/
theorem score_of_body {level : Level}
    (body : level.body.toList = tidied (score.toList.splitOn '\n')) :
    (allBlank score.toList = true →
      ∃ measure, Measure.clickTrack .common = .ok measure ∧ level.score = .ok [measure]) ∧
    (allBlank score.toList = false → level.score.mapError ReadError.misreading =
      (Score.read score).mapError ReadError.misreading) := by
  have empty : level.body.isEmpty = true ↔ allBlank score.toList = true := by
    rw [← all_allBlank_splitOn, ← tidied_eq_nil_iff, ← body, String.isEmpty_iff,
      String.toList_eq_nil_iff]
  constructor
  · intro blank
    obtain ⟨measure, made, single⟩ := exists_clicks
    exact ⟨measure, made, by rw [Level.score, if_pos (empty.mpr blank), single]⟩
  · intro inked
    have filled : ¬ level.body.isEmpty = true := by
      rw [empty, inked]
      exact Bool.false_ne_true
    rw [Level.score, if_neg filled, Score.read_misreading, Score.read_misreading, body, tidied,
      trim_trim, ← tidied, ← Measure.mapM_read_trim, map_trim_lines_tidied, Measure.mapM_read_trim]

/-- A level is the same whether its block stands above or below its score. Everything in it but its
body depends on the block alone, whatever reads the fields. It plays the measures of the score or
fails as the score does, apart from the number of the line. A level with a blank score plays
one measure of clicks. -/
theorem placement_exact (reader : List Char → Except FrontMatterFault LevelFields) (block : Block)
    {score above below : String} (unmarked : Unmarked (score.toList.splitOn '\n'))
    (standsAbove : block.StandsAbove score above) (standsBelow : block.StandsBelow score below) :
    readWith reader above = readWith reader below ∧
    (readWith reader above).map (withBody · []) = header reader block ∧
    ∀ level, readWith reader above = .ok level →
      (allBlank score.toList = true →
        ∃ measure, Measure.clickTrack .common = .ok measure ∧ level.score = .ok [measure]) ∧
      (allBlank score.toList = false → level.score.mapError ReadError.misreading =
        (Score.read score).mapError ReadError.misreading) := by
  have made : readWith reader above = _ := readWith_of_above standsAbove unmarked
  refine ⟨made.trans (readWith_of_below standsBelow unmarked).symm, ?_, ?_⟩
  · rw [made, map_withBody_withBody, header_withBody]
  · intro level reads
    rw [made, map_eq_ok_iff] at reads
    obtain ⟨plain, -, rfl⟩ := reads
    exact score_of_body String.toList_ofList

end Placement

section Example

def tempoBlock : Block :=
  ⟨"---".toList, ["tempo: 60\r".toList], " ---".toList, by decide, by decide, by decide, by decide⟩

/-- A measure that has a letter for a duration. -/
def strayScore : String := "4/4: x\r\n"

/-- The stray score is refused in a level as it is refused alone. -/
theorem placement_exact_strayScore :
    Unmarked (strayScore.toList.splitOn '\n') ∧
    read (String.ofList (tempoBlock.text ++ '\n' :: strayScore.toList)) =
      read (String.ofList (strayScore.toList ++ '\n' :: tempoBlock.text)) ∧
    ∃ level, read (String.ofList (tempoBlock.text ++ '\n' :: strayScore.toList)) = .ok level ∧
      level.score.mapError ReadError.misreading =
        (Score.read strayScore).mapError ReadError.misreading := by
  have unmarked : Unmarked (strayScore.toList.splitOn '\n') := by decide
  obtain ⟨same, headed, plays⟩ := placement_exact mappedFields tempoBlock unmarked
    (tempoBlock.standsAbove_append strayScore) (tempoBlock.standsBelow_append strayScore)
  have described : (header mappedFields tempoBlock).toOption.isSome = true := by decide +kernel
  refine ⟨unmarked, same, ?_⟩
  cases made : read (String.ofList (tempoBlock.text ++ '\n' :: strayScore.toList)) with
  | error fault =>
      rw [← headed, ← read, made] at described
      cases described
  | ok level => exact ⟨level, rfl, (plays level made).2 (by decide)⟩

end Example

end Level

end Rhythm
