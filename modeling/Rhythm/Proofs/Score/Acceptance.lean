import Rhythm.Proofs.Score.Reading

/-
This file shows that the reader accepts exactly the lines of the grammar. The main statement is
`Score.read_line_exact`.
-/

namespace Rhythm

open Outcome Text

/-- The blanks around a line do not change what it spells. -/
theorem spells_trim_iff {line : List Char} {draft : MeasureDraft} :
    Spells (trim line) draft ↔ Spells line draft := by
  constructor
  · intro spelled
    obtain ⟨intro, contents, whole, first, introSpelled, filled, elements⟩ := spelled
    obtain ⟨front, frontBlank, frontWhole⟩ := eq_append_trimStart line
    obtain ⟨back, backBlank, backWhole⟩ := eq_trimEnd_append (trimStart line)
    have trimmed : trimEnd (trimStart line) = intro ++ ':' :: contents := whole
    refine ⟨front ++ intro, contents ++ back, ?_, ?_, ?_, ?_, ?_⟩
    · rw [frontWhole, backWhole, trimmed]
      simp
    · rw [List.mem_append, not_or]
      refine ⟨fun member => ?_, first⟩
      cases List.all_eq_true.mp frontBlank ':' member
    · rw [squeeze_append, squeeze_eq_nil frontBlank, List.nil_append]
      exact introSpelled
    · rw [words_append_margin backBlank]
      exact filled
    · rw [words_append_margin backBlank]
      exact elements
  · intro spelled
    obtain ⟨intro, contents, rfl, first, introSpelled, filled, elements⟩ := spelled
    refine ⟨trimStart intro, trimEnd contents, trim_append_cons (by decide), ?_, ?_, ?_, ?_⟩
    · exact fun member => first ((List.dropWhile_suffix isBlank).subset member)
    · rw [squeeze_trimStart]
      exact introSpelled
    · rw [words_trimEnd]
      exact filled
    · rw [words_trimEnd]
      exact elements

section Lines

variable {source : String}

/-- A text of one line is read as one measure, and its line has the number one. -/
theorem Score.read_eq_of_line (unbroken : '\n' ∉ source.toList)
    (inked : allBlank source.toList = false) :
    Score.read source = (Score.readLine (trim source.toList, 1)).map fun measure => [measure] := by
  have skipped : (source.toList.takeWhile isBlank).count '\n' = 0 := by
    rw [List.count_eq_zero]
    exact fun member => unbroken ((List.takeWhile_prefix isBlank).subset member)
  have numbered : Score.numberedLines source.toList = [(trim source.toList, 1)] := by
    rw [Score.numberedLines, skipped, lines_trim_of_not_mem unbroken inked]
    rfl
  rw [Score.read, numbered]
  cases single : Score.readLine (trim source.toList, 1) <;>
    simp [List.mapM_cons, single, bind, Except.bind, pure, Except.pure, Except.map]

/-- The reader accepts exactly the lines of the grammar. What it returns is the one measure that
realizes what the line spells, and a line of the grammar is only refused when the measure that it
spells is not sound. -/
theorem Score.read_line_exact (unbroken : '\n' ∉ source.toList)
    (inked : allBlank source.toList = false) :
    (∀ score, Score.read source = .ok score → ∃ draft measure, Spells source.toList draft ∧
      (∀ other, draft.Realizes other ↔ other = measure) ∧ score = [measure]) ∧
    ∀ draft, Spells source.toList draft →
      (draft.Sound → ∃ measure, (∀ other, draft.Realizes other ↔ other = measure) ∧
        Score.read source = .ok [measure]) ∧
      (¬ draft.Sound → ∃ fault, Score.read source = .error ⟨1, .impossible fault⟩) := by
  rw [Score.read_eq_of_line unbroken inked]
  constructor
  · intro score read
    obtain ⟨measure, own, rfl⟩ := map_eq_ok_iff.mp read
    obtain ⟨draft, spelled, realized⟩ := Measure.spells_of_read (mapError_eq_ok_iff.mp own)
    exact ⟨draft, measure, spells_trim_iff.mp spelled, realized.iff_eq, rfl⟩
  · intro draft spelled
    have reads := Measure.read_of_spells (spells_trim_iff.mpr spelled)
    constructor
    · intro sound
      obtain ⟨measure, realized⟩ := MeasureDraft.exists_realizes_iff.mpr sound
      refine ⟨measure, realized.iff_eq, ?_⟩
      rw [Score.readLine, reads, MeasureDraft.build_eq_ok_iff.mpr realized]
      rfl
    · intro unsound
      cases made : draft.build with
      | ok measure =>
          exact absurd (MeasureDraft.exists_realizes_iff.mp
            ⟨measure, MeasureDraft.build_eq_ok_iff.mp made⟩) unsound
      | error fault =>
          refine ⟨fault, ?_⟩
          rw [Score.readLine, reads, made]
          rfl

/-- These groups have one beat as words do, so their measure is sound. -/
example : (Score.read "1/4 (4294967295+2): 1").toOption.isSome = true := by
  decide +kernel

end Lines

section Example

/-- A line with groups of its own, a note with a pitch and both flags, and a tuplet that holds a
rest, a note with a pitch and one flag and a bare note. -/
def groupedLine : String := "5/8 (2+3): 3.5/F#4/T,U 3=(0.5/R-0.5/B4/U-1.25)"

/-- The measure that the grouped line spells. -/
def groupedDraft : MeasureDraft where
  meter := ⟨5, 8⟩
  grouping? := some [2, 3]
  elements :=
    [.single (.note 3.5 { Pitch.middleC with letter := .f, accidental := .sharp } true true),
      .group 3 [.rest 0.5, .note 0.5 { Pitch.middleC with letter := .b } false true,
        .note 1.25 .middleC false false]]

theorem spellsNumeral_digit {digit : Char} {number : UInt32} (known : digit.isDigit = true)
    (value : Nat.ofDigitChars 10 [digit] 0 = number.toNat) : SpellsNumeral [digit] number :=
  ⟨List.cons_ne_nil _ _, by simpa using known, value⟩

/-- The grouped line spells its draft, one part after the other. -/
theorem spells_groupedLine : Spells groupedLine.toList groupedDraft := by
  have five : SpellsNumeral ['5'] 5 := spellsNumeral_digit (by decide) (by decide)
  have eight : SpellsNumeral ['8'] 8 := spellsNumeral_digit (by decide) (by decide)
  have two : SpellsNumeral ['2'] 2 := spellsNumeral_digit (by decide) (by decide)
  have three : SpellsNumeral ['3'] 3 := spellsNumeral_digit (by decide) (by decide)
  have intro : SpellsIntro _ ⟨5, 8⟩ (some [2, 3]) :=
    SpellsIntro.grouped (.inl five) (.inl eight) (by simp) (.cons two (.cons three .nil))
  have pitched : SpellsEvent _ (.note 3.5 ⟨.f, .sharp, 4⟩ true true) :=
    @SpellsEvent.full ['3', '.', '5'] _ ['T', ',', 'U'] _ _ _ _ (by decide) rfl
      ⟨['T', 'U'], by simp, by simp, rfl, rfl, rfl⟩
  have rest : SpellsEvent _ (.rest 0.5) :=
    @SpellsEvent.rest ['0', '.', '5'] _ 'R' (by decide) (.inl rfl)
  have unbeamed : SpellsEvent _ (.note 0.5 ⟨.b, .natural, 4⟩ false true) :=
    @SpellsEvent.full ['0', '.', '5'] _ ['U'] _ _ _ _ (by decide) rfl
      ⟨['U'], by simp, by simp, rfl, rfl, rfl⟩
  have bare : SpellsEvent ['1', '.', '2', '5'] (.note 1.25 .middleC false false) :=
    .bare (by decide)
  have tuplet := SpellsElement.group (.inl three) (by simp)
    (.cons ⟨by decide, rest⟩ (.cons ⟨by decide, unbeamed⟩ (.cons ⟨by decide, bare⟩ .nil)))
  -- The blank before the groups is squeezed out, so only the elements are cut into words.
  have tokens : words " 3.5/F#4/T,U 3=(0.5/R-0.5/B4/U-1.25)".toList =
      ["3.5/F#4/T,U".toList, "3=(0.5/R-0.5/B4/U-1.25)".toList] := by decide
  refine ⟨"5/8 (2+3)".toList, " 3.5/F#4/T,U 3=(0.5/R-0.5/B4/U-1.25)".toList, by decide, by decide,
    ?_, by decide, ?_⟩
  · exact intro
  · rw [tokens]
    exact .cons (.single pitched) (.cons tuplet .nil)

theorem sound_groupedDraft : groupedDraft.Sound where
  playable := ⟨by decide, by decide, by decide⟩
  nonempty := by decide
  elements := by
    have pitched : Lasts 3.5 := by decide
    have half : Lasts 0.5 := by decide
    have bare : Lasts 1.25 := by decide
    refine List.forall_mem_cons.mpr
      ⟨pitched, List.forall_mem_singleton.mpr ⟨by decide, by decide, ?_⟩⟩
    exact List.forall_mem_cons.mpr
      ⟨half, List.forall_mem_cons.mpr ⟨half, List.forall_mem_singleton.mpr bare⟩⟩
  holds := by decide
  partitions := by
    intro grouping chosen
    cases chosen
    exact ⟨by decide, by decide, by decide⟩

/-- The grouped line is read as the one measure that realizes it. -/
theorem Score.read_line_exact_groupedLine :
    ∃ measure, (∀ other, groupedDraft.Realizes other ↔ other = measure) ∧
      Score.read groupedLine = .ok [measure] :=
  ((Score.read_line_exact (by decide) (by decide)).2 _ spells_groupedLine).1 sound_groupedDraft

end Example

end Rhythm
