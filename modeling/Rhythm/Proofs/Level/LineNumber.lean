import Rhythm.Proofs.Level.Placement

/-
This file says which line the error of a level names. The main statement is
`Level.score_error_exact`, that the number counts from the first line of the score, which need not
be the first line of the source.
-/

namespace Rhythm

open FrontMatter Outcome Text

/-- The same error with more lines above it. -/
def ReadError.later (error : ReadError) (count : Nat) : ReadError :=
  ⟨error.line + count, error.misreading⟩

theorem ReadError.later_injective (count : Nat) :
    Function.Injective (ReadError.later · count) := by
  rintro ⟨first, misreading⟩ ⟨second, other⟩ same
  simpa [ReadError.later] using same

namespace Level

def plainLine (line : List Char × Nat) : Bool :=
  !isMarker line.1

/-- The lines of a source outside its block of front matter, from the first to the last one that is
not blank. -/
def scoreLines (source : List Char) : List (List Char × Nat) :=
  let upper := (numbered 1 source).takeWhile plainLine
  let lower := ((numbered 1 source).dropWhile plainLine).rtakeWhile plainLine
  inkedLines (upper ++ lower)

/-- The number of lines that stand above the first one of the score. -/
def linesAbove (source : List Char) : Nat :=
  (scoreLines source).head?.elim 0 fun line => line.2 - 1

section Numbers

variable {source : List Char} {lines front back : List (List Char × Nat)}
  {upper inner lower : List (List Char)}

theorem inkedLines_append_left (blank : ∀ line ∈ front, blankLine line = true) :
    inkedLines (front ++ back) = inkedLines back := by
  rw [inkedLines, List.dropWhile_append_of_pos blank, inkedLines]

theorem inkedLines_append_right (blank : ∀ line ∈ back, blankLine line = true) :
    inkedLines (front ++ back) = inkedLines front := by
  have gone : back.dropWhile blankLine = [] := List.dropWhile_eq_nil_iff.mpr blank
  rw [inkedLines, inkedLines, List.dropWhile_append, gone]
  split
  case isTrue empty => rw [List.isEmpty_iff.mp empty]
  case isFalse =>
    rw [List.rdropWhile, List.rdropWhile, List.reverse_append, List.dropWhile_append_of_pos]
    exact fun line member => blank line (List.mem_reverse.mp member)

theorem plainLine_of_mem_zipIdx {pieces : List (List Char)} {number : Nat}
    (unmarked : Unmarked pieces) : ∀ line ∈ pieces.zipIdx number, plainLine line = true := by
  intro line member
  rw [plainLine, unmarked line.1 (List.fst_mem_of_mem_zipIdx member)]
  rfl

theorem blankLine_of_mem_zipIdx {pieces : List (List Char)} {number : Nat}
    (blank : pieces.all allBlank = true) : ∀ line ∈ pieces.zipIdx number, blankLine line = true :=
  fun line member => List.all_eq_true.mp blank line.1 (List.fst_mem_of_mem_zipIdx member)

/-- The lines of a source without markers are those of its score. -/
theorem scoreLines_of_unmarked (unmarked : Unmarked (source.splitOn '\n')) :
    scoreLines source = bodyLines source := by
  have plain : ∀ line ∈ numbered 1 source, plainLine line = true :=
    plainLine_of_mem_zipIdx unmarked
  rw [scoreLines, List.takeWhile_eq_self_iff.mpr plain, List.dropWhile_eq_nil_iff.mpr plain,
    List.rtakeWhile_nil, List.append_nil]
  rfl

/-- The lines at the two ends of a source are those outside its block. -/
theorem scoreLines_of_cut (cut : Cut (source.splitOn '\n') upper inner lower) :
    ∃ number, 1 ≤ number ∧
      scoreLines source = inkedLines (upper.zipIdx 1 ++ lower.zipIdx number) := by
  obtain ⟨⟨opening, closing, whole, opens, closes⟩, upperUnmarked, -, lowerUnmarked⟩ := cut
  have upperPlain : ∀ line ∈ upper.zipIdx 1, plainLine line = true :=
    plainLine_of_mem_zipIdx upperUnmarked
  have openingMarked (number : Nat) : ¬ plainLine (opening, number) = true := by
    simp [plainLine, opens]
  have closingMarked (number : Nat) : ¬ plainLine (closing, number) = true := by
    simp [plainLine, closes]
  have front : (numbered 1 source).takeWhile plainLine = upper.zipIdx 1 := by
    rw [numbered, whole, List.zipIdx_append, List.takeWhile_append_of_pos upperPlain,
      List.zipIdx_cons, List.takeWhile_cons_of_neg (openingMarked _), List.append_nil]
  have back : ((numbered 1 source).dropWhile plainLine).rtakeWhile plainLine =
      lower.zipIdx (1 + upper.length + 1 + inner.length + 1) := by
    rw [numbered, whole, List.zipIdx_append, List.dropWhile_append_of_pos upperPlain,
      List.zipIdx_cons, List.dropWhile_cons_of_neg (openingMarked _), List.zipIdx_append,
      List.zipIdx_cons, List.rtakeWhile, List.reverse_cons, List.reverse_append, List.reverse_cons,
      List.append_assoc, List.append_assoc, List.takeWhile_append_of_pos, List.singleton_append,
      List.takeWhile_cons_of_neg (closingMarked _), List.append_nil, List.reverse_reverse]
    exact fun line member => plainLine_of_mem_zipIdx lowerUnmarked line (List.mem_reverse.mp member)
  refine ⟨1 + upper.length + 1 + inner.length + 1, by omega, ?_⟩
  rw [scoreLines, front, back]

end Numbers

section Body

variable {reader : List Char → Except FrontMatterFault LevelFields} {source : String}
  {level : Level}

/-- The body of a level is what the split leaves, trimmed. -/
theorem body_of_read (made : readWith reader source = .ok level) :
    ∃ block body, split source.toList = .ok (block, body) ∧ level.body.toList = trim body := by
  obtain ⟨⟨block, body⟩, parts, made⟩ := bind_eq_ok_iff.mp made
  obtain ⟨fields, -, made⟩ := bind_eq_ok_iff.mp made
  rw [ofFields_eq, map_eq_ok_iff] at made
  obtain ⟨plain, -, rfl⟩ := made
  exact ⟨block, body, parts, String.toList_ofList⟩

/-- The body of a level has the lines of the score, apart from the blanks around each of them. They
follow each other as in the source. -/
theorem exists_body_numbering (made : readWith reader source = .ok level) :
    ∃ first, 1 ≤ first ∧ (scoreLines source.toList).map trimmed =
      ((lines level.body.toList).zipIdx first).map trimmed := by
  obtain ⟨block, body, parts, kept⟩ := body_of_read made
  rw [kept]
  have unbroken : ∀ line ∈ source.toList.splitOn '\n', '\n' ∉ line := fun _ =>
    not_mem_of_mem_splitOn
  obtain unmarked | ⟨upper, inner, lower, cut⟩ := exists_cut_of_split parts
  · rw [split_of_unmarked unmarked] at parts
    cases parts
    rw [scoreLines_of_unmarked unmarked]
    exact ⟨_, Nat.succ_pos _, map_trimmed_bodyLines source.toList⟩
  · obtain ⟨number, positive, lines⟩ := scoreLines_of_cut cut
    obtain ⟨opening, closing, whole, -⟩ := cut.whole
    rw [whole, List.forall_mem_append, List.forall_mem_cons, List.forall_mem_append,
      List.forall_mem_cons] at unbroken
    obtain ⟨upperUnbroken, -, -, -, lowerUnbroken⟩ := unbroken
    rw [lines]
    rw [split_of_cut cut] at parts
    split_ifs at parts with upperBlank lowerBlank
    · cases parts
      obtain ⟨first, order, same⟩ := exists_numbering lowerUnbroken number
      rw [inkedLines_append_left (blankLine_of_mem_zipIdx upperBlank), trim_unlines_closeLines]
      exact ⟨first, positive.trans order, same⟩
    · cases parts
      rw [inkedLines_append_right (blankLine_of_mem_zipIdx lowerBlank)]
      exact exists_numbering upperUnbroken 1

/-- A level fails as the lines of its body do when they are counted from one. -/
theorem score_eq_error_iff (made : readWith reader source = .ok level) {error : ReadError} :
    level.score = .error error ↔
      ((lines level.body.toList).zipIdx 1).mapM Score.readLine = .error error := by
  obtain ⟨block, body, -, kept⟩ := body_of_read made
  rw [Level.score]
  split
  case isTrue empty =>
    rw [String.isEmpty_iff.mp empty]
    simp [lines, closeLines, pure, Except.pure]
  case isFalse =>
    rw [Score.read, Score.numberedLines, kept, takeWhile_trim, trim_trim]
    rfl

/-- More lines above count in every error. -/
theorem mapM_readLine_later (lines : List (List Char)) (first count : Nat) :
    (lines.zipIdx (count + first)).mapM Score.readLine =
      ((lines.zipIdx first).mapM Score.readLine).mapError (ReadError.later · count) := by
  rw [mapM_mapError, ← List.map_snd_add_zipIdx_eq_zipIdx, List.mapM_map]
  congr 1
  funext line
  change (Measure.read line.1).mapError (ReadError.mk (line.2 + count)) =
    ((Measure.read line.1).mapError (ReadError.mk line.2)).mapError (ReadError.later · count)
  cases Measure.read line.1 <;> rfl

/-- The lines of the score fail as the level does, with the lines above them counted in. -/
theorem mapM_scoreLines (made : readWith reader source = .ok level) :
    (scoreLines source.toList).mapM Score.readLine =
      (((lines level.body.toList).zipIdx 1).mapM Score.readLine).mapError
        (ReadError.later · (linesAbove source.toList)) := by
  obtain ⟨first, positive, same⟩ := exists_body_numbering made
  rw [← Score.mapM_readLine_trimmed, same, Score.mapM_readLine_trimmed]
  cases whole : lines level.body.toList with
  | nil => rfl
  | cons line rest =>
      have above : linesAbove source.toList + 1 = first := by
        have head := congrArg List.head? same
        rw [whole, List.head?_map] at head
        obtain ⟨own, found, equation⟩ := Option.map_eq_some_iff.mp head
        have number : own.2 = first := congrArg Prod.snd equation
        rw [linesAbove, found]
        simp only [Option.elim_some]
        omega
      rw [← above, mapM_readLine_later]

theorem mem_numbered_of_mem_scoreLines {source : List Char} {line : List Char × Nat}
    (member : line ∈ scoreLines source) : line ∈ numbered 1 source := by
  have kept := (List.rdropWhile_prefix blankLine _).subset member
  obtain upper | lower := List.mem_append.mp ((List.dropWhile_suffix blankLine).subset kept)
  · exact (List.takeWhile_prefix plainLine).subset upper
  · have later := (List.rtakeWhile_suffix plainLine _).subset lower
    exact (List.dropWhile_suffix plainLine).subset later

/-- Taps and windows fail as the score does. -/
theorem timed_eq_error_iff (made : readWith reader source = .ok level) (start : Float)
    (error : ReadError) :
    (level.schedule start = .error error ↔ level.score = .error error) ∧
    (level.windows start = .error error ↔ level.score = .error error) ∧
    (windowsWith reader source start = .error (.score error) ↔ level.score = .error error) := by
  rw [windowsWith, made]
  cases played : level.score with
  | ok score =>
      simp [schedule, windows, played, bind, Except.bind, pure, Except.pure, Except.mapError]
  | error own => simp [schedule, windows, played, bind, Except.bind, Except.mapError]

/-- A level that is read, whatever reads its fields, fails with the error that blames the first line
of its score that cannot be read alone, except that the number leaves out the lines above the first
line of the score. Its taps and windows fail with the same error. A source without front matter
fails with the whole number when it is read as a score. -/
theorem score_error_exact (made : readWith reader source = .ok level) :
    (∀ error, level.score = .error error ↔ ∃ before line after,
      scoreLines source.toList = before ++ line :: after ∧
        (∀ earlier ∈ before, Score.ReadsAlone earlier) ∧
        Score.Blames (error.later (linesAbove source.toList)) line) ∧
    (∀ line ∈ scoreLines source.toList, StandsIn source.toList line) ∧
    (∀ start error, (level.schedule start = .error error ↔ level.score = .error error) ∧
      (level.windows start = .error error ↔ level.score = .error error) ∧
      (windowsWith reader source start = .error (.score error) ↔ level.score = .error error)) ∧
    (Unmarked (source.toList.splitOn '\n') → ∀ error, level.score = .error error ↔
      Score.read source = .error (error.later (linesAbove source.toList))) := by
  have numbers (error : ReadError) : level.score = .error error ↔
      (scoreLines source.toList).mapM Score.readLine =
        .error (error.later (linesAbove source.toList)) := by
    rw [score_eq_error_iff made, mapM_scoreLines made, mapError_eq_error_iff]
    constructor
    · intro failed
      exact ⟨error, failed, rfl⟩
    · rintro ⟨own, failed, same⟩
      rwa [ReadError.later_injective _ same] at failed
  refine ⟨fun error => ?_, fun line member => ?_, timed_eq_error_iff made,
    fun unmarked error => ?_⟩
  · rw [numbers]
    refine Score.mapM_readLine_eq_error_iff fun line member => ?_
    obtain ⟨before, after, -, unbroken, -⟩ :=
      standsIn_of_mem_numbered (mem_numbered_of_mem_scoreLines member)
    exact unbroken
  · exact standsIn_of_mem_numbered (mem_numbered_of_mem_scoreLines member)
  · rw [numbers, scoreLines_of_unmarked unmarked, Score.read_eq_mapM]

end Body

section Example

/-- A source with a blank line above its only measure, which has a letter for a duration. -/
def loweredSource : String := "\n4/4: x"

/-- The error of that measure when it is counted as the first line. -/
def strayError : ReadError := ⟨1, .misprint ['x'] (.duration ['x'])⟩

theorem scoreLines_loweredSource : scoreLines loweredSource.toList = [("4/4: x".toList, 2)] := by
  decide +kernel

theorem exists_read_loweredSource :
    ∃ level, read loweredSource = .ok level ∧ level.score = .error strayError := by
  have described : (read loweredSource).toOption.isSome = true := by decide +kernel
  cases made : read loweredSource with
  | error fault =>
      rw [made] at described
      cases described
  | ok level =>
      refine ⟨level, rfl, (score_eq_error_iff made).mpr ?_⟩
      obtain ⟨block, body, parts, kept⟩ := body_of_read made
      rw [split_of_unmarked (by decide)] at parts
      cases parts
      rw [kept]
      rfl

/-- The error of a level need not name the line that it blames. -/
theorem not_score_error_in_place :
    ¬ ∀ (source : String) (level : Level) (error : ReadError), read source = .ok level →
      level.score = .error error → ∃ before line after,
        scoreLines source.toList = before ++ line :: after ∧
          (∀ earlier ∈ before, Score.ReadsAlone earlier) ∧ Score.Blames error line := by
  intro inPlace
  obtain ⟨level, made, failed⟩ := exists_read_loweredSource
  obtain ⟨before, line, after, whole, -, blames⟩ :=
    inPlace loweredSource level strayError made failed
  have member : line ∈ scoreLines loweredSource.toList := by
    rw [whole]
    simp
  rw [scoreLines_loweredSource, List.mem_singleton] at member
  have number := blames.number
  rw [member] at number
  cases number

/-- The error of the lowered source counts from its measure, with one line above. -/
theorem score_error_exact_loweredSource : ∃ level, read loweredSource = .ok level ∧
    level.score = .error strayError ∧
    Score.read loweredSource = .error (strayError.later (linesAbove loweredSource.toList)) := by
  obtain ⟨level, made, failed⟩ := exists_read_loweredSource
  obtain ⟨-, -, -, alone⟩ := score_error_exact made
  exact ⟨level, made, failed, (alone (by decide) strayError).mp failed⟩

end Example

end Level

end Rhythm
