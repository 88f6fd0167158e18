import Rhythm.Proofs.Score.Acceptance
import Rhythm.Proofs.Score.Token
import Rhythm.Proofs.Text.Body

/-
This file shows that a score is read line by line, each line as if it stood alone, and that an
error is the one of the first line that fails. The main statement is `Score.read_lines_exact`.
-/

namespace Rhythm

open Outcome Text

section Margins

variable {line : List Char}

theorem readIntro_trimStart (intro : List Char) :
    readIntro (trimStart intro) = readIntro intro := by
  obtain ⟨margin, blank, whole⟩ := eq_append_trimStart intro
  have same : trim (trimStart intro) = trim intro := by
    conv_rhs => rw [whole, trim_margin_append blank]
  rw [readIntro, readIntro, same, squeeze_trimStart]

/-- The blanks around a line do not change how it is read. -/
theorem Measure.read_trim (line : List Char) : Measure.read (trim line) = Measure.read line := by
  unfold Measure.read
  rw [trim_trim]
  cases cut : cutAt ':' line with
  | none =>
      have fresh := cutAt_eq_none_iff.mp cut
      rw [cutAt_eq_none_iff.mpr fun member => fresh (mem_of_mem_trim member)]
  | some parts =>
      obtain ⟨whole, first⟩ := cutAt_eq_some_iff.mp cut
      have kept : ':' ∉ trimStart parts.1 := fun member =>
        first ((List.dropWhile_suffix isBlank).subset member)
      have trimmedCut : cutAt ':' (trim line) = some (trimStart parts.1, trimEnd parts.2) := by
        rw [whole, trim_append_cons (by decide), cutAt_append kept]
      rw [trimmedCut]
      simp only [expect, bind, Except.bind, readIntro_trimStart, words_trimEnd]

theorem Measure.mapM_read_trim (lines : List (List Char)) :
    (lines.map trim).mapM read = lines.mapM read := by
  rw [List.mapM_map]
  exact congrArg lines.mapM (funext read_trim)

theorem Score.readLine_trimmed (line : NumberedLine) : readLine (trimmed line) = readLine line := by
  rw [readLine, readLine, trimmed, Measure.read_trim]

theorem Score.mapM_readLine_trimmed (lines : List NumberedLine) :
    (lines.map trimmed).mapM readLine = lines.mapM readLine := by
  rw [List.mapM_map]
  exact congrArg lines.mapM (funext readLine_trimmed)

/-- A blank line has no colon. -/
theorem Measure.read_of_blank (blank : allBlank line = true) :
    Measure.read line = .error (.misprint [] .noColon) := by
  have missing : cutAt ':' line = none := by
    refine cutAt_eq_none_iff.mpr fun member => ?_
    cases List.all_eq_true.mp blank ':' member
  rw [Measure.read, missing, trim_eq_nil_iff.mpr blank]
  rfl

end Margins

namespace Score

/-- A line can be read alone when it is not blank and holds a measure. -/
def ReadsAlone (line : NumberedLine) : Prop :=
  allBlank line.1 = false ∧ ∃ alone, read (String.ofList line.1) = .ok alone

/-- An error blames a line when it has its number and is the error of the line alone. A blank line
has no colon. -/
structure Blames (error : ReadError) (line : NumberedLine) : Prop where
  number : error.line = line.2
  inked : allBlank line.1 = false →
    read (String.ofList line.1) = .error ⟨1, error.misreading⟩
  blank : allBlank line.1 = true → error.misreading = .misprint [] .noColon

/-- An error is worded for a line when it reports a misprint with a piece of the line for its token,
or a measure that cannot exist. -/
def WordedFor (error : ReadError) (line : NumberedLine) : Prop :=
  (∃ token misprint, error.misreading = .misprint token misprint ∧ token <:+: line.1 ∧
    error.message = "Format error at line " ++ toString line.2 ++ ", token " ++
      Misprint.quote token ++ ": " ++ misprint.message) ∨
  ∃ wording, error.message = "Invalid measure at line " ++ toString line.2 ++ ": " ++ wording

section Lines

variable {source : String} {line : NumberedLine} {lines : List NumberedLine} {error : ReadError}
  {measure : Measure}

/-- A score is read line by line, from the first to the last line that is not blank. -/
theorem read_eq_mapM (source : String) :
    read source = (bodyLines source.toList).mapM readLine := by
  rw [← mapM_readLine_trimmed, map_trimmed_bodyLines, mapM_readLine_trimmed]
  rfl

/-- The lines of a score are read one by one, whatever their numbers are. -/
theorem read_misreading (source : String) :
    (read source).mapError ReadError.misreading =
      (Text.lines (trim source.toList)).mapM Measure.read := by
  have each : (fun line => (readLine line).mapError ReadError.misreading) =
      Measure.read ∘ Prod.fst := by
    funext line
    rw [readLine, Function.comp_apply]
    cases Measure.read line.1 <;> rfl
  rw [read, mapM_mapError, each, numberedLines, ← List.mapM_map, List.zipIdx_map_fst]

/-- A line that is not blank is read alone as it is read in its score, apart from its number. -/
theorem read_alone (unbroken : '\n' ∉ line.1) (inked : allBlank line.1 = false) :
    read (String.ofList line.1) =
      ((Measure.read line.1).mapError (ReadError.mk 1)).map fun measure => [measure] := by
  have whole : (String.ofList line.1).toList = line.1 := String.toList_ofList
  rw [read_eq_of_line (by rwa [whole]) (by rwa [whole]), whole, readLine, Measure.read_trim]

/-- A line is read when it can be read alone, and gives the one measure it gives alone. -/
theorem readLine_eq_ok_iff (unbroken : '\n' ∉ line.1) :
    readLine line = .ok measure ↔
      allBlank line.1 = false ∧ read (String.ofList line.1) = .ok [measure] := by
  rw [readLine, mapError_eq_ok_iff]
  by_cases inked : allBlank line.1 = false
  · rw [read_alone unbroken inked, map_eq_ok_iff]
    simp [inked, mapError_eq_ok_iff]
  · have blank := (Bool.not_eq_false _).mp inked
    rw [Measure.read_of_blank blank]
    simp [blank]

theorem readsAlone_iff (unbroken : '\n' ∉ line.1) :
    ReadsAlone line ↔ ∃ measure, readLine line = .ok measure := by
  simp only [readLine_eq_ok_iff unbroken, exists_and_left, ReadsAlone]
  refine and_congr_right fun inked => ?_
  rw [read_alone unbroken inked]
  constructor
  · intro reads
    obtain ⟨alone, whole⟩ := reads
    obtain ⟨measure, own, -⟩ := map_eq_ok_iff.mp whole
    exact ⟨measure, map_eq_ok_iff.mpr ⟨measure, own, rfl⟩⟩
  · intro reads
    obtain ⟨measure, whole⟩ := reads
    exact ⟨[measure], whole⟩

/-- A line fails with the error that blames it. -/
theorem readLine_eq_error_iff (unbroken : '\n' ∉ line.1) :
    readLine line = .error error ↔ Blames error line := by
  obtain ⟨number, misreading⟩ := error
  rw [readLine, mapError_eq_error_iff]
  by_cases inked : allBlank line.1 = false
  · have alone : read (String.ofList line.1) = .error ⟨1, misreading⟩ ↔
        Measure.read line.1 = .error misreading := by
      rw [read_alone unbroken inked, map_eq_error_iff, mapError_eq_error_iff]
      simp
    constructor
    · intro failed
      obtain ⟨own, read, equation⟩ := failed
      cases equation
      exact ⟨rfl, fun _ => alone.mpr read, fun blank => by simp [inked] at blank⟩
    · intro blames
      exact ⟨misreading, alone.mp (blames.inked inked), by rw [← blames.number]⟩
  · have blank := (Bool.not_eq_false _).mp inked
    rw [Measure.read_of_blank blank]
    constructor
    · intro failed
      obtain ⟨own, read, equation⟩ := failed
      cases read
      cases equation
      exact ⟨rfl, fun other => absurd other inked, fun _ => rfl⟩
    · intro blames
      exact ⟨_, rfl, by rw [← blames.number, ← blames.blank blank]⟩

/-- An error is worded for the line that it blames. -/
theorem wordedFor_of_blames (member : line ∈ bodyLines source.toList)
    (blames : Blames error line) : WordedFor error line := by
  have failed := (readLine_eq_error_iff (not_mem_of_mem_bodyLines member)).mpr blames
  obtain ⟨misreading, read, rfl⟩ := mapError_eq_error_iff.mp failed
  cases misreading with
  | misprint token misprint =>
      exact Or.inl ⟨token, misprint, rfl, Measure.tokensIn_read line.1 token misprint read, rfl⟩
  | impossible fault => exact Or.inr ⟨fault.wording, rfl⟩
  | nested token =>
      refine Or.inr ⟨Fault.nestedTuplet.wording ++ ": " ++ Misprint.quote token, ?_⟩
      rw [← String.append_assoc, ← String.append_assoc]
      rfl

/-- Lines fail with the error that blames the first one that cannot be read alone. -/
theorem mapM_readLine_eq_error_iff (unbroken : ∀ line ∈ lines, '\n' ∉ line.1) :
    lines.mapM readLine = .error error ↔ ∃ before line after, lines = before ++ line :: after ∧
      (∀ earlier ∈ before, ReadsAlone earlier) ∧ Blames error line := by
  rw [mapM_eq_error_iff]
  -- The parts of the split agree one by one, given that they are unbroken.
  refine exists_congr fun before => exists_congr fun line => exists_congr fun after =>
    and_congr_right fun whole => ?_
  rw [whole, List.forall_mem_append, List.forall_mem_cons] at unbroken
  obtain ⟨earlierUnbroken, own, -⟩ := unbroken
  rw [readLine_eq_error_iff own, and_congr_left_iff]
  intro _
  refine forall₂_congr fun earlier front => ?_
  rw [readsAlone_iff (earlierUnbroken earlier front)]

/-- A score is read when each of its lines can be read alone. -/
theorem exists_read_iff (source : String) :
    (∃ score, read source = .ok score) ↔ ∀ line ∈ bodyLines source.toList, ReadsAlone line := by
  rw [read_eq_mapM]
  constructor
  · intro reads line member
    obtain ⟨score, paired⟩ := reads
    rw [readsAlone_iff (not_mem_of_mem_bodyLines member)]
    exact exists_of_mem_left (mapM_eq_ok_iff.mp paired) member
  · intro alone
    cases outcome : (bodyLines source.toList).mapM readLine with
    | ok score => exact ⟨score, rfl⟩
    | error error =>
        obtain ⟨before, line, after, whole, -, failed⟩ := mapM_eq_error_iff.mp outcome
        have member : line ∈ bodyLines source.toList := by
          rw [whole]
          simp
        obtain ⟨measure, own⟩ :=
          (readsAlone_iff (not_mem_of_mem_bodyLines member)).mp (alone line member)
        rw [own] at failed
        cases failed

/-- A score has one measure for each of its lines, the one that the line gives alone. -/
theorem forall₂_of_read {score : Score} (reads : read source = .ok score) :
    List.Forall₂ (fun line measure => read (String.ofList line.1) = .ok [measure])
      (bodyLines source.toList) score := by
  rw [read_eq_mapM] at reads
  have paired := (List.forall₂_and_left _ _).mpr ⟨fun line member => member,
    mapM_eq_ok_iff.mp reads⟩
  exact paired.imp fun line measure own =>
    ((readLine_eq_ok_iff (not_mem_of_mem_bodyLines own.1)).mp own.2).2

/-- A score fails with the error that blames the first line that cannot be read alone. -/
theorem read_eq_error_iff (source : String) (error : ReadError) :
    read source = .error error ↔ ∃ before line after,
      bodyLines source.toList = before ++ line :: after ∧
        (∀ earlier ∈ before, ReadsAlone earlier) ∧ Blames error line := by
  rw [read_eq_mapM]
  exact mapM_readLine_eq_error_iff fun line => not_mem_of_mem_bodyLines

/-- A score is read exactly when each line from the first to the last one that is not blank can be
read alone, and has the measures of these lines in their order. Otherwise the error blames the first
line that cannot be read alone. Its number counts the lines of the whole text. -/
theorem read_lines_exact (source : String) :
    ((∃ score, read source = .ok score) ↔ ∀ line ∈ bodyLines source.toList, ReadsAlone line) ∧
    (∀ score, read source = .ok score → List.Forall₂
      (fun line measure => read (String.ofList line.1) = .ok [measure])
      (bodyLines source.toList) score) ∧
    (∀ error, read source = .error error ↔ ∃ before line after,
      bodyLines source.toList = before ++ line :: after ∧
        (∀ earlier ∈ before, ReadsAlone earlier) ∧ Blames error line) ∧
    (∀ line ∈ bodyLines source.toList, StandsIn source.toList line ∧
      ∀ error, Blames error line → WordedFor error line) := by
  refine ⟨exists_read_iff source, fun score => forall₂_of_read, read_eq_error_iff source, ?_⟩
  intro line member
  exact ⟨standsIn_of_mem_bodyLines member, fun error => wordedFor_of_blames member⟩

end Lines

end Score

end Rhythm
