import Rhythm.Text.Line
import Mathlib.Data.List.DropRight

/-
This file says what cutting, trimming and joining do to texts. The main statements are
`cutAt_eq_some_iff`, `trim_append_cons`, `words_flatMap` and `lines_trim_unlines`.
-/

namespace Rhythm.Text

/-- The characters between the space and the controls of the second block are not blank. -/
theorem isBlank_of_between {character : Char} (above : 0x20 < character.toNat)
    (below : character.toNat < 0x85) : isBlank character = false := by
  apply List.any_eq_false.mpr
  intro run member
  have outside : run.2 ≤ 0x20 ∨ 0x85 ≤ run.1 := by
    revert run
    decide
  simp only [Bool.and_eq_true, decide_eq_true_eq]
  omega

theorem isBlank_of_isDigit {character : Char} (digit : character.isDigit = true) :
    isBlank character = false := by
  have range := Char.isDigit_iff_toNat.mp digit
  exact isBlank_of_between (Nat.lt_of_lt_of_le (by decide) range.1)
    (Nat.lt_of_le_of_lt range.2 (by decide))

section Cut

variable {separator : Char} {text before after : List Char}

/-- A text is cut at the first separator. -/
theorem cutAt_append (fresh : separator ∉ before) :
    cutAt separator (before ++ separator :: after) = some (before, after) := by
  induction before with
  | nil => simp [cutAt]
  | cons character rest inductionHypothesis =>
      have different := List.ne_of_not_mem_cons fresh
      have freshRest := List.not_mem_of_not_mem_cons fresh
      rw [List.cons_append, cutAt, if_neg (Ne.symm different), inductionHypothesis freshRest]
      rfl

/-- A text is cut at its first separator, which is lost. -/
theorem cutAt_eq_some_iff :
    cutAt separator text = some (before, after) ↔
      text = before ++ separator :: after ∧ separator ∉ before := by
  constructor
  · exact cutAt_eq
  · intro cut
    obtain ⟨rfl, fresh⟩ := cut
    exact cutAt_append fresh

/-- A text without a separator is not cut. -/
theorem cutAt_eq_none_iff : cutAt separator text = none ↔ separator ∉ text := by
  induction text with
  | nil => simp [cutAt]
  | cons character rest inductionHypothesis =>
      by_cases same : character = separator
      · simp [cutAt, same]
      · simp [cutAt, same, inductionHypothesis, Ne.symm same]

theorem dropLast?_eq_some_iff {last : Char} :
    dropLast? last text = some before ↔ text = before ++ [last] := by
  unfold dropLast?
  constructor
  · intro dropped
    split at dropped
    case isTrue found =>
      rw [← Option.some.inj dropped]
      exact (List.dropLast_append_getLast? last found).symm
    case isFalse => cases dropped
  · rintro rfl
    simp

end Cut

/-- The pieces of a text that is cut at each separator do not hold it. -/
theorem not_mem_of_mem_splitOn {separator : Char} {text piece : List Char}
    (member : piece ∈ text.splitOn separator) : separator ∉ piece := by
  induction text generalizing piece with
  | nil =>
      rw [List.splitOn_nil, List.mem_singleton] at member
      simp [member]
  | cons character rest inductionHypothesis =>
      rw [List.splitOn_cons_eq_if_modifyHead] at member
      split at member
      case isTrue =>
        obtain rfl | later := List.mem_cons.mp member
        · simp
        · exact inductionHypothesis later
      case isFalse different =>
        obtain ⟨first, others, cut⟩ := List.exists_cons_of_ne_nil
          (List.splitOn_ne_nil separator rest)
        rw [cut, List.modifyHead_cons] at member
        rw [cut] at inductionHypothesis
        obtain rfl | later := List.mem_cons.mp member
        · have other : separator ≠ character := by
            rintro rfl
            exact different (beq_self_eq_true _)
          exact List.not_mem_cons_of_ne_of_not_mem other (inductionHypothesis List.mem_cons_self)
        · exact inductionHypothesis (List.mem_cons_of_mem _ later)

/-- Two texts around a separator have their own characters and the separator. -/
theorem mem_append_cons {separator character : Char} {before after : List Char}
    (member : character ∈ before ++ separator :: after) :
    character ∈ before ∨ character = separator ∨ character ∈ after := by
  rw [List.mem_append, List.mem_cons] at member
  exact member

/-- Joined texts have the characters of the texts and the separator. -/
theorem mem_intercalate {separator character : Char} {texts : List (List Char)}
    (member : character ∈ [separator].intercalate texts) :
    character = separator ∨ ∃ text ∈ texts, character ∈ text := by
  induction texts with
  | nil => cases member
  | cons text rest inductionHypothesis =>
      by_cases empty : rest = []
      · subst empty
        rw [List.intercalate_singleton] at member
        exact Or.inr ⟨text, List.mem_cons_self, member⟩
      · rw [List.intercalate_cons_of_ne_nil empty, List.append_assoc] at member
        obtain inText | same | inRest := mem_append_cons member
        · exact Or.inr ⟨text, List.mem_cons_self, inText⟩
        · exact Or.inl same
        · obtain same | ⟨other, chosen, inOther⟩ := inductionHypothesis inRest
          · exact Or.inl same
          · exact Or.inr ⟨other, List.mem_cons_of_mem _ chosen, inOther⟩

section Trim

variable {character : Char} {text before after margin : List Char}

/-- Only blanks are lost at the start. -/
theorem eq_append_trimStart (text : List Char) :
    ∃ margin, allBlank margin = true ∧ text = margin ++ trimStart text := by
  refine ⟨text.takeWhile isBlank, ?_, List.takeWhile_append_dropWhile.symm⟩
  exact List.all_takeWhile

/-- Only blanks are lost at the end. -/
theorem eq_trimEnd_append (text : List Char) :
    ∃ margin, allBlank margin = true ∧ text = trimEnd text ++ margin := by
  refine ⟨text.rtakeWhile isBlank, ?_, List.rdropWhile_append_rtakeWhile.symm⟩
  exact List.all_eq_true.mpr fun _ => List.mem_rtakeWhile_imp

/-- Trimming at the start stops at a solid character. -/
theorem trimStart_append_cons (solid : isBlank character = false) :
    trimStart (before ++ character :: after) = trimStart before ++ character :: after := by
  induction before with
  | nil => simp [trimStart, solid]
  | cons first rest inductionHypothesis =>
      by_cases blank : isBlank first = true
      · simpa [trimStart, blank] using inductionHypothesis
      · simp [trimStart, blank]

/-- Trimming at the end stops at a solid character. -/
theorem trimEnd_append_cons (solid : isBlank character = false) :
    trimEnd (before ++ character :: after) = before ++ character :: trimEnd after := by
  have reversed := @trimStart_append_cons character after.reverse before.reverse solid
  unfold trimStart at reversed
  simp [trimEnd, reversed]

/-- Trimming works on the two sides of a solid character. -/
theorem trim_append_cons (solid : isBlank character = false) :
    trim (before ++ character :: after) = trimStart before ++ character :: trimEnd after := by
  rw [trim, trimStart_append_cons solid, trimEnd_append_cons solid]

/-- A text with a solid character is not trimmed away. -/
theorem trim_ne_nil (inked : allBlank text = false) : trim text ≠ [] := by
  obtain ⟨character, member, solid⟩ := List.all_eq_false.mp inked
  obtain ⟨before, after, rfl⟩ := List.append_of_mem member
  rw [trim_append_cons (Bool.not_eq_true _ ▸ solid)]
  simp

theorem mem_of_mem_trim (member : character ∈ trim text) : character ∈ text := by
  have inStart : character ∈ trimStart text := (List.rdropWhile_prefix isBlank _).subset member
  exact (List.dropWhile_suffix isBlank).subset inStart

theorem squeeze_append (before after : List Char) :
    squeeze (before ++ after) = squeeze before ++ squeeze after :=
  List.filter_append before after

/-- A text without blanks is left as it is. -/
theorem squeeze_eq_self (solid : ∀ character ∈ text, isBlank character = false) :
    squeeze text = text := by
  rw [squeeze, List.filter_eq_self]
  intro character member
  rw [solid character member]
  rfl

theorem squeeze_eq_nil (blank : allBlank margin = true) : squeeze margin = [] := by
  rw [squeeze, List.filter_eq_nil_iff]
  intro character member
  simp [List.all_eq_true.mp blank character member]

/-- Trimming takes nothing that squeezing would keep. -/
theorem squeeze_trimStart (text : List Char) : squeeze (trimStart text) = squeeze text := by
  obtain ⟨margin, blank, whole⟩ := eq_append_trimStart text
  conv_rhs => rw [whole, squeeze_append, squeeze_eq_nil blank, List.nil_append]

end Trim

section Words

variable {blank : Char} {before after margin : List Char}

theorem words_nil : words [] = [] :=
  rfl

/-- No word goes across a blank. -/
theorem words_append_cons (gap : isBlank blank = true) :
    words (before ++ blank :: after) = words before ++ words after := by
  rw [words, List.splitOnP_append_cons before after gap, List.filter_append]
  rfl

theorem words_eq_nil (gap : allBlank margin = true) : words margin = [] := by
  induction margin with
  | nil => rfl
  | cons first rest inductionHypothesis =>
      obtain ⟨firstBlank, restBlank⟩ := Bool.and_eq_true_iff.mp gap
      rw [← List.nil_append (first :: rest), words_append_cons firstBlank,
        inductionHypothesis restBlank, words_nil, List.append_nil]

/-- Blanks at the end add no word. -/
theorem words_append_margin (gap : allBlank margin = true) :
    words (before ++ margin) = words before := by
  cases margin with
  | nil => rw [List.append_nil]
  | cons first rest =>
      obtain ⟨firstBlank, restBlank⟩ := Bool.and_eq_true_iff.mp gap
      rw [words_append_cons firstBlank, words_eq_nil restBlank, List.append_nil]

/-- Trimming takes no word. -/
theorem words_trimEnd (text : List Char) : words (trimEnd text) = words text := by
  obtain ⟨margin, gap, whole⟩ := eq_trimEnd_append text
  conv_rhs => rw [whole, words_append_margin gap]

/-- A text without blanks is one word. -/
theorem words_singleton {word : List Char} (nonempty : word ≠ [])
    (solid : ∀ character ∈ word, isBlank character = false) : words word = [word] := by
  rw [words, List.splitOnP_eq_singleton solid]
  simp [nonempty]

/-- Words with a space before each of them are cut apart again. -/
theorem words_flatMap {tokens : List (List Char)}
    (solid : ∀ token ∈ tokens, token ≠ [] ∧ ∀ character ∈ token, isBlank character = false) :
    words (tokens.flatMap fun token => ' ' :: token) = tokens := by
  suffices step : ∀ front, words (front ++ tokens.flatMap fun token => ' ' :: token) =
      words front ++ tokens from step []
  induction tokens with
  | nil => simp
  | cons token rest inductionHypothesis =>
      intro front
      obtain ⟨nonempty, whole⟩ := solid token List.mem_cons_self
      have later := inductionHypothesis fun token member =>
        solid token (List.mem_cons_of_mem _ member)
      rw [List.flatMap_cons, List.cons_append, words_append_cons (by decide), later,
        words_singleton nonempty whole, List.singleton_append]

end Words

section Lines

/-- A tight text has no blank at its two ends. -/
structure Tight (text : List Char) : Prop where
  opens : ∃ first rest, text = first :: rest ∧ isBlank first = false
  closes : ∃ front last, text = front ++ [last] ∧ isBlank last = false

variable {text before after : List Char} {texts : List (List Char)}

theorem Tight.ne_nil (tight : Tight text) : text ≠ [] := by
  obtain ⟨first, rest, rfl, _⟩ := tight.opens
  exact List.cons_ne_nil first rest

/-- A tight text is trimmed already. -/
theorem Tight.trim (tight : Tight text) : trim text = text := by
  obtain ⟨first, rest, opening, firstSolid⟩ := tight.opens
  have start : trimStart text = text := by
    rw [opening]
    exact List.dropWhile_cons_of_neg (Bool.not_eq_true _ ▸ firstSolid)
  obtain ⟨front, last, closing, lastSolid⟩ := tight.closes
  rw [Text.trim, start, closing]
  exact trimEnd_append_cons lastSolid

theorem Tight.append (first : Tight before) (last : Tight after) (middle : List Char) :
    Tight (before ++ middle ++ after) := by
  obtain ⟨character, rest, rfl, firstSolid⟩ := first.opens
  obtain ⟨front, other, rfl, lastSolid⟩ := last.closes
  exact ⟨⟨character, _, rfl, firstSolid⟩, ⟨_, other, (List.append_assoc _ _ _).symm, lastSolid⟩⟩

/-- A tight line does not end in a carriage return. -/
theorem Tight.dropReturn (tight : Tight text) : dropReturn text = text := by
  obtain ⟨front, last, rfl, solid⟩ := tight.closes
  have other : last ≠ '\r' := by
    rintro rfl
    cases solid
  simp [Text.dropReturn, dropLast?, other]

/-- Tight lines are kept as they are. -/
theorem closeLines_eq_self (tight : ∀ line ∈ texts, Tight line) : closeLines texts = texts := by
  induction texts with
  | nil => rfl
  | cons line rest inductionHypothesis =>
      have own := tight line List.mem_cons_self
      cases rest with
      | nil => simp [closeLines, own.ne_nil]
      | cons second rest =>
          rw [closeLines, own.dropReturn, inductionHypothesis fun line member =>
            tight line (List.mem_cons_of_mem _ member)]
          exact List.cons_ne_nil second rest

/-- Tight lines make up a tight text. -/
theorem unlines_tight (nonempty : texts ≠ []) (tight : ∀ line ∈ texts, Tight line) :
    Tight (unlines texts) := by
  induction texts with
  | nil => exact absurd rfl nonempty
  | cons line rest inductionHypothesis =>
      have own := tight line List.mem_cons_self
      cases rest with
      | nil => simpa [unlines] using own
      | cons second rest =>
          have later := inductionHypothesis (List.cons_ne_nil second rest) fun line member =>
            tight line (List.mem_cons_of_mem _ member)
          have joined : unlines (line :: second :: rest) =
              line ++ ['\n'] ++ unlines (second :: rest) := by
            simp [unlines, List.intercalate]
          rw [joined]
          exact own.append later ['\n']

/-- Tight lines that are joined are read back line by line. -/
theorem lines_trim_unlines (tight : ∀ line ∈ texts, Tight line)
    (unbroken : ∀ line ∈ texts, '\n' ∉ line) : lines (trim (unlines texts)) = texts := by
  by_cases empty : texts = []
  · subst empty
    rfl
  · rw [(unlines_tight empty tight).trim, lines, unlines,
      List.splitOn_intercalate '\n' unbroken empty, closeLines_eq_self tight]

/-- A line without line feeds is the only line of its text. -/
theorem lines_trim_of_not_mem (unbroken : '\n' ∉ text) (inked : allBlank text = false) :
    lines (trim text) = [trim text] := by
  have whole : (trim text).splitOn '\n' = [trim text] :=
    List.splitOn_eq_singleton fun member => unbroken (mem_of_mem_trim member)
  rw [lines, whole]
  simp [closeLines, trim_ne_nil inked]

end Lines

end Rhythm.Text
