import Rhythm.Proofs.Text.Line

/-
This file numbers the lines of a text from its first one. The main statement is
`map_trimmed_bodyLines`, that trimming a text leaves the lines from the first to the last one that
is not blank.
-/

namespace Rhythm.Text

/-- The lines between the line feeds of a text, with their numbers. -/
def numbered (first : Nat) (text : List Char) : List (List Char × Nat) :=
  (text.splitOn '\n').zipIdx first

def blankLine (line : List Char × Nat) : Bool :=
  allBlank line.1

/-- Some numbered lines without the blank ones before and after them. -/
def inkedLines (lines : List (List Char × Nat)) : List (List Char × Nat) :=
  (lines.dropWhile blankLine).rdropWhile blankLine

/-- The lines from the first to the last one that is not blank. -/
def bodyLines (text : List Char) : List (List Char × Nat) :=
  inkedLines (numbered 1 text)

/-- A numbered line stands in a text between line feeds or the ends of the text. Its number is one
more than the number of line feeds before it. -/
def StandsIn (text : List Char) (line : List Char × Nat) : Prop :=
  ∃ before after, text = before ++ line.1 ++ after ∧ '\n' ∉ line.1 ∧
    (before = [] ∨ before.getLast? = some '\n') ∧ (after = [] ∨ after.head? = some '\n') ∧
    line.2 = before.count '\n' + 1

def trimmed (line : List Char × Nat) : List Char × Nat :=
  (trim line.1, line.2)

section Margins

variable {character : Char} {text margin : List Char}

theorem allBlank_singleton (blank : isBlank character = true) : allBlank [character] = true := by
  rw [allBlank, List.all_cons, blank]
  rfl

/-- A blank at the start is trimmed. -/
theorem trim_cons (blank : isBlank character = true) : trim (character :: text) = trim text := by
  rw [trim, trimStart, List.dropWhile_cons_of_pos blank]
  rfl

/-- Nothing is left of a text if and only if it is blank. -/
theorem trim_eq_nil_iff : trim text = [] ↔ allBlank text = true := by
  constructor
  · intro empty
    by_contra inked
    exact trim_ne_nil ((Bool.not_eq_true _).mp inked) empty
  · intro blank
    induction text with
    | nil => rfl
    | cons first rest inductionHypothesis =>
        obtain ⟨firstBlank, restBlank⟩ := Bool.and_eq_true_iff.mp blank
        rw [trim_cons firstBlank, inductionHypothesis restBlank]

/-- Blanks at the start are trimmed. -/
theorem trim_margin_append (blank : allBlank margin = true) :
    trim (margin ++ text) = trim text := by
  induction margin with
  | nil => rfl
  | cons first rest inductionHypothesis =>
      obtain ⟨firstBlank, restBlank⟩ := Bool.and_eq_true_iff.mp blank
      rw [List.cons_append, trim_cons firstBlank, inductionHypothesis restBlank]

/-- Blanks at the end are trimmed. -/
theorem trim_append_margin (blank : allBlank margin = true) :
    trim (text ++ margin) = trim text := by
  by_cases empty : allBlank text = true
  · have both : allBlank (text ++ margin) = true := by
      rw [allBlank, List.all_append]
      exact Bool.and_eq_true_iff.mpr ⟨empty, blank⟩
    rw [trim_eq_nil_iff.mpr empty, trim_eq_nil_iff.mpr both]
  · obtain ⟨solid, member, unblank⟩ := List.all_eq_false.mp ((Bool.not_eq_true _).mp empty)
    obtain ⟨before, after, rfl⟩ := List.append_of_mem member
    have kept := (Bool.not_eq_true _).mp unblank
    have dropped : trimEnd (after ++ margin) = trimEnd after := by
      have reversed : margin.reverse.dropWhile isBlank = [] := by
        rw [List.dropWhile_eq_nil_iff]
        exact fun other inside => List.all_eq_true.mp blank other (List.mem_reverse.mp inside)
      rw [trimEnd, List.reverse_append, List.dropWhile_append, reversed]
      rfl
    rw [List.append_assoc, List.cons_append, trim_append_cons kept, trim_append_cons kept, dropped]

/-- What ignores a blank at either end of a text ignores all blanks around it. -/
theorem apply_trim {A : Type} (read : List Char → A)
    (cons : ∀ character text, isBlank character = true → read (character :: text) = read text)
    (concat : ∀ text character, isBlank character = true → read (text ++ [character]) = read text)
    (text : List Char) : read (trim text) = read text := by
  have front (margin text : List Char) (blank : allBlank margin = true) :
      read (margin ++ text) = read text := by
    induction margin with
    | nil => rfl
    | cons first rest inductionHypothesis =>
        obtain ⟨firstBlank, restBlank⟩ := Bool.and_eq_true_iff.mp blank
        rw [List.cons_append, cons _ _ firstBlank, inductionHypothesis restBlank]
  have back (margin text : List Char) (blank : allBlank margin = true) :
      read (text ++ margin) = read text := by
    induction margin generalizing text with
    | nil => rw [List.append_nil]
    | cons first rest inductionHypothesis =>
        obtain ⟨firstBlank, restBlank⟩ := Bool.and_eq_true_iff.mp blank
        rw [List.append_cons, inductionHypothesis _ restBlank, concat _ _ firstBlank]
  obtain ⟨before, beforeBlank, beforeWhole⟩ := eq_append_trimStart text
  obtain ⟨after, afterBlank, afterWhole⟩ := eq_trimEnd_append (trimStart text)
  calc
    read (trim text) = read (trim text ++ after) := (back after _ afterBlank).symm
    _ = read (trimStart text) := congrArg read afterWhole.symm
    _ = read (before ++ trimStart text) := (front before _ beforeBlank).symm
    _ = read text := congrArg read beforeWhole.symm

theorem trim_trim (text : List Char) : trim (trim text) = trim text :=
  apply_trim trim (fun _ _ blank => trim_cons blank)
    (fun _ _ blank => trim_append_margin (allBlank_singleton blank)) text

/-- No blank is at the start of a trimmed text. -/
theorem takeWhile_trim (text : List Char) : (trim text).takeWhile isBlank = [] := by
  have kept := List.head?_dropWhile_not isBlank text
  rw [trim]
  rw [← trimStart] at kept
  cases start : trimStart text with
  | nil => rfl
  | cons first rest =>
      rw [start, List.head?_cons] at kept
      rw [← List.nil_append (first :: rest), trimEnd_append_cons kept]
      exact List.takeWhile_cons_of_neg (by rw [kept]; exact Bool.false_ne_true)

/-- Trimming at the end leaves a solid character there. -/
theorem exists_trimEnd_eq (solid : isBlank character = false) (text : List Char) :
    ∃ front last, trimEnd (character :: text) = front ++ [last] ∧ isBlank last = false := by
  have filled : trimEnd (character :: text) ≠ [] := by
    intro empty
    have blank := List.rdropWhile_eq_nil_iff.mp empty character List.mem_cons_self
    rw [solid] at blank
    cases blank
  exact ⟨_, _, (List.dropLast_append_getLast filled).symm,
    (Bool.not_eq_true _).mp (List.rdropWhile_last_not isBlank _ filled)⟩

theorem blankLine_trimmed (line : List Char × Nat) : blankLine (trimmed line) = blankLine line := by
  rw [Bool.eq_iff_iff, blankLine, blankLine, ← trim_eq_nil_iff, ← trim_eq_nil_iff]
  exact iff_of_eq (congrArg (· = []) (trim_trim line.1))

end Margins

section Lines

variable {character : Char}

theorem map_trimmed_dropWhile (lines : List (List Char × Nat)) :
    (lines.dropWhile blankLine).map trimmed = (lines.map trimmed).dropWhile blankLine := by
  rw [List.dropWhile_map]
  congr 2
  funext line
  exact (blankLine_trimmed line).symm

theorem map_trimmed_rdropWhile (lines : List (List Char × Nat)) :
    (lines.rdropWhile blankLine).map trimmed = (lines.map trimmed).rdropWhile blankLine := by
  rw [List.rdropWhile, List.rdropWhile, List.map_reverse, map_trimmed_dropWhile, List.map_reverse]

/-- A character other than the separator goes to the first piece of a text. -/
theorem splitOn_cons {separator : Char} (other : character ≠ separator) (text : List Char) :
    ∃ first rest, text.splitOn separator = first :: rest ∧
      (character :: text).splitOn separator = (character :: first) :: rest := by
  obtain ⟨first, rest, cut⟩ := List.exists_cons_of_ne_nil (List.splitOn_ne_nil separator text)
  refine ⟨first, rest, cut, ?_⟩
  rw [List.splitOn_cons_eq_if_modifyHead, if_neg (by simpa using other), cut, List.modifyHead_cons]

/-- A character other than the separator goes to the last piece of a text. -/
theorem splitOn_concat {separator : Char} (other : character ≠ separator) (text : List Char) :
    ∃ front last, text.splitOn separator = front ++ [last] ∧
      (text ++ [character]).splitOn separator = front ++ [last ++ [character]] := by
  induction text with
  | nil =>
      obtain ⟨first, rest, cut, longer⟩ := splitOn_cons other []
      rw [List.splitOn_nil] at cut
      cases cut
      exact ⟨[], [], rfl, longer⟩
  | cons own text inductionHypothesis =>
      obtain ⟨front, last, cut, longer⟩ := inductionHypothesis
      rw [List.cons_append, List.splitOn_cons_eq_if_modifyHead, List.splitOn_cons_eq_if_modifyHead,
        cut, longer]
      split
      · exact ⟨[] :: front, last, rfl, rfl⟩
      · cases front with
        | nil => exact ⟨[], own :: last, rfl, rfl⟩
        | cons first rest => exact ⟨(own :: first) :: rest, last, rfl, rfl⟩

theorem trimmed_feed (number : Nat) (text : List Char) :
    (numbered number ('\n' :: text)).map trimmed =
      ([], number) :: (numbered (number + 1) text).map trimmed := by
  rw [numbered, List.splitOn_cons_eq_if_modifyHead, if_pos (by rfl), List.zipIdx_cons]
  rfl

/-- Other blanks at the start are trimmed with the first line. -/
theorem trimmed_cons (number : Nat) (blank : isBlank character = true)
    (other : character ≠ '\n') (text : List Char) :
    (numbered number (character :: text)).map trimmed = (numbered number text).map trimmed := by
  obtain ⟨first, rest, cut, longer⟩ := splitOn_cons other text
  rw [numbered, numbered, cut, longer, List.zipIdx_cons, List.zipIdx_cons, List.map_cons,
    List.map_cons, trimmed, trimmed, trim_cons blank]

/-- Blank lines at the start are lost, and the blanks before the first line that is not blank. -/
theorem dropWhile_trimmed (number : Nat) (text : List Char) :
    ((numbered number text).map trimmed).dropWhile blankLine =
      ((numbered (number + (text.takeWhile isBlank).count '\n') (trimStart text)).map
        trimmed).dropWhile blankLine := by
  induction text generalizing number with
  | nil => rfl
  | cons character text inductionHypothesis =>
      by_cases blank : isBlank character = true
      · rw [trimStart, List.dropWhile_cons_of_pos blank, List.takeWhile_cons_of_pos blank]
        by_cases feed : character = '\n'
        · rw [feed, trimmed_feed, List.dropWhile_cons_of_pos (by rfl), inductionHypothesis,
            List.count_cons_self, Nat.add_right_comm, Nat.add_assoc]
          rfl
        · rw [trimmed_cons number blank feed, inductionHypothesis, List.count_cons_of_ne feed]
          rfl
      · rw [trimStart, List.dropWhile_cons_of_neg blank, List.takeWhile_cons_of_neg blank]
        rfl

/-- A first line that starts with a solid character is kept. -/
theorem dropWhile_trimmed_cons (number : Nat) (solid : isBlank character = false)
    (text : List Char) :
    ((numbered number (character :: text)).map trimmed).dropWhile blankLine =
      (numbered number (character :: text)).map trimmed := by
  have other : character ≠ '\n' := by
    rintro rfl
    cases solid
  obtain ⟨first, rest, -, cut⟩ := splitOn_cons other text
  have inked : ¬ blankLine (trimmed (character :: first, number)) = true := by
    rw [blankLine_trimmed, blankLine, allBlank, List.all_cons, solid]
    exact Bool.false_ne_true
  rw [numbered, cut, List.zipIdx_cons, List.map_cons, List.dropWhile_cons_of_neg inked]

/-- Blank lines at the end are lost, and the blanks after the last line that is not blank. -/
theorem rdropWhile_trimmed (number : Nat) (text : List Char) :
    ((numbered number text).map trimmed).rdropWhile blankLine =
      ((numbered number (trimEnd text)).map trimmed).rdropWhile blankLine := by
  change _ = ((numbered number (text.rdropWhile isBlank)).map trimmed).rdropWhile blankLine
  induction text using List.reverseRecOn with
  | nil => rfl
  | append_singleton text character inductionHypothesis =>
      by_cases blank : isBlank character = true
      · rw [List.rdropWhile_concat_pos _ _ _ blank, ← inductionHypothesis]
        by_cases feed : character = '\n'
        · rw [feed, numbered, List.splitOn_append_cons_self, List.splitOn_nil, List.zipIdx_append,
            List.map_append, List.zipIdx_singleton, List.map_singleton,
            List.rdropWhile_concat_pos _ _ _ (by rfl)]
          rfl
        · obtain ⟨front, last, cut, longer⟩ := splitOn_concat feed text
          have same : trim (last ++ [character]) = trim last :=
            trim_append_margin (allBlank_singleton blank)
          rw [numbered, numbered, cut, longer]
          simp [List.zipIdx_append, trimmed, same]
      · rw [List.rdropWhile_concat_neg _ _ _ blank]

/-- The last line is kept if it ends with a solid character. -/
theorem rdropWhile_trimmed_concat (number : Nat) (solid : isBlank character = false)
    (text : List Char) :
    ((numbered number (text ++ [character])).map trimmed).rdropWhile blankLine =
      (numbered number (text ++ [character])).map trimmed := by
  have other : character ≠ '\n' := by
    rintro rfl
    cases solid
  obtain ⟨front, last, -, cut⟩ := splitOn_concat other text
  have inked (number : Nat) : ¬ blankLine (trimmed (last ++ [character], number)) = true := by
    rw [blankLine_trimmed, blankLine, allBlank, List.all_append, List.all_cons, solid]
    simp
  rw [numbered, cut, List.zipIdx_append, List.map_append, List.zipIdx_singleton,
    List.map_singleton, List.rdropWhile_concat_neg _ _ _ (inked _)]

/-- A line loses at most a blank with its return. -/
theorem eq_dropReturn_append (line : List Char) :
    ∃ margin, allBlank margin = true ∧ line = dropReturn line ++ margin := by
  rw [dropReturn]
  cases dropped : dropLast? '\r' line with
  | none => exact ⟨[], rfl, (List.append_nil line).symm⟩
  | some rest => exact ⟨['\r'], by decide, dropLast?_eq_some_iff.mp dropped⟩

theorem trim_dropReturn (line : List Char) : trim (dropReturn line) = trim line := by
  obtain ⟨margin, blank, whole⟩ := eq_dropReturn_append line
  conv_rhs => rw [whole, trim_append_margin blank]

/-- All lines but the last one of a text lose their return. -/
theorem closeLines_append (front : List (List Char)) {back : List (List Char)}
    (filled : back ≠ []) :
    closeLines (front ++ back) = front.map dropReturn ++ closeLines back := by
  induction front with
  | nil => rfl
  | cons line rest inductionHypothesis =>
      obtain ⟨next, others, whole⟩ := List.exists_cons_of_ne_nil
        (List.append_ne_nil_of_right_ne_nil rest filled)
      rw [List.cons_append, List.map_cons, List.cons_append, ← inductionHypothesis, whole]
      rfl

/-- Only blanks tell the pieces between line feeds from lines, if the last piece is not empty. -/
theorem map_trim_closeLines {front : List (List Char)} {last : List Char} (filled : last ≠ []) :
    (closeLines (front ++ [last])).map trim = (front ++ [last]).map trim := by
  have returned : trim ∘ dropReturn = trim := funext trim_dropReturn
  rw [closeLines_append front (List.cons_ne_nil last []), closeLines,
    if_neg (by simpa using filled), List.map_append, List.map_append, List.map_map, returned]

/-- The blanks around a line do not tell whether it is blank. -/
theorem map_trimmed_inkedLines (lines : List (List Char × Nat)) :
    (inkedLines lines).map trimmed = inkedLines (lines.map trimmed) := by
  rw [inkedLines, inkedLines, map_trimmed_rdropWhile, map_trimmed_dropWhile]

/-- The lines of a trimmed text are those from the first to the last one that is not blank, apart
from the blanks around each of them, whatever number the first line of the text has. -/
theorem map_trimmed_inkedLines_numbered (number : Nat) (text : List Char) :
    (inkedLines (numbered number text)).map trimmed =
      ((lines (trim text)).zipIdx (number + (text.takeWhile isBlank).count '\n')).map trimmed := by
  rw [map_trimmed_inkedLines, inkedLines, dropWhile_trimmed, trim]
  generalize number + (text.takeWhile isBlank).count '\n' = number
  -- What is left of the text starts and ends with solid characters, so its first and its last line
  -- are kept.
  cases start : trimStart text with
  | nil => rfl
  | cons first rest =>
      have firstSolid : isBlank first = false := by
        have head := List.head?_dropWhile_not isBlank text
        rwa [← trimStart, start] at head
      obtain ⟨front, last, whole, lastSolid⟩ := exists_trimEnd_eq firstSolid rest
      have other : last ≠ '\n' := by
        rintro rfl
        cases lastSolid
      obtain ⟨pieces, piece, -, cut⟩ := splitOn_concat other front
      have same : (pieces ++ [piece ++ [last]]).map trim =
          (closeLines (pieces ++ [piece ++ [last]])).map trim :=
        (map_trim_closeLines (by simp)).symm
      rw [dropWhile_trimmed_cons number firstSolid, rdropWhile_trimmed, whole,
        rdropWhile_trimmed_concat number lastSolid, numbered, lines, cut]
      change List.map (Prod.map trim id) _ = List.map (Prod.map trim id) _
      rw [← List.zipIdx_map, ← List.zipIdx_map, same]

/-- The lines of a trimmed text are those from the first to the last one that is not blank, apart
from the blanks around each of them. -/
theorem map_trimmed_bodyLines (text : List Char) :
    (bodyLines text).map trimmed =
      ((lines (trim text)).zipIdx ((text.takeWhile isBlank).count '\n' + 1)).map trimmed := by
  rw [Nat.add_comm _ 1]
  exact map_trimmed_inkedLines_numbered 1 text

/-- A text that is joined from pieces has a separator after each piece before a given one, and
before each piece after it. -/
theorem intercalate_append_cons (separator : Char) (front back : List (List Char))
    (piece : List Char) :
    [separator].intercalate (front ++ piece :: back) =
      front.flatMap (· ++ [separator]) ++ piece ++ back.flatMap (separator :: ·) := by
  induction front with
  | nil =>
      induction back generalizing piece with
      | nil => simp
      | cons next rest inductionHypothesis =>
          have tail := inductionHypothesis next
          rw [List.nil_append] at tail ⊢
          rw [List.intercalate_cons_of_ne_nil (List.cons_ne_nil next rest), tail]
          simp
  | cons first rest inductionHypothesis =>
      rw [List.cons_append, List.intercalate_cons_of_ne_nil (by simp), inductionHypothesis]
      simp

/-- Pieces that do not hold the separator have one separator each when it ends them. -/
theorem count_flatMap_concat {separator : Char} {pieces : List (List Char)}
    (fresh : ∀ piece ∈ pieces, separator ∉ piece) :
    (pieces.flatMap (· ++ [separator])).count separator = pieces.length := by
  induction pieces with
  | nil => rfl
  | cons piece rest inductionHypothesis =>
      have own := List.count_eq_zero.mpr (fresh piece List.mem_cons_self)
      have later := inductionHypothesis fun other member =>
        fresh other (List.mem_cons_of_mem _ member)
      rw [List.flatMap_cons, List.count_append, List.count_append, own, later,
        List.count_singleton_self, List.length_cons]
      omega

/-- The numbered lines of a text stand in it. -/
theorem standsIn_of_mem_numbered {text : List Char} {line : List Char × Nat}
    (member : line ∈ numbered 1 text) : StandsIn text line := by
  obtain ⟨positive, found⟩ := List.mem_zipIdx_iff_le_and_getElem?_sub.mp member
  obtain ⟨bound, own⟩ := List.getElem?_eq_some_iff.mp found
  have fresh : ∀ piece ∈ text.splitOn '\n', '\n' ∉ piece := fun _ => not_mem_of_mem_splitOn
  have cut := List.take_append_drop (line.2 - 1) (text.splitOn '\n')
  rw [List.drop_eq_getElem_cons bound, own] at cut
  have whole := intercalate_append_cons '\n' ((text.splitOn '\n').take (line.2 - 1))
    ((text.splitOn '\n').drop (line.2 - 1 + 1)) line.1
  rw [cut, List.intercalate_splitOn] at whole
  refine ⟨_, _, whole, fresh _ (own ▸ List.getElem_mem bound), ?_, ?_, ?_⟩
  · obtain none | ⟨front, last, some⟩ := List.eq_nil_or_concat
      ((text.splitOn '\n').take (line.2 - 1))
    · exact Or.inl (by rw [none]; rfl)
    · refine Or.inr ?_
      rw [some]
      simp
  · cases (text.splitOn '\n').drop (line.2 - 1 + 1) with
    | nil => exact Or.inl rfl
    | cons next rest => exact Or.inr rfl
  · rw [count_flatMap_concat fun piece front => fresh piece (List.mem_of_mem_take front),
      List.length_take, Nat.min_eq_left bound.le, Nat.sub_add_cancel positive]

theorem standsIn_of_mem_bodyLines {text : List Char} {line : List Char × Nat}
    (member : line ∈ bodyLines text) : StandsIn text line := by
  have kept := (List.rdropWhile_prefix blankLine _).subset member
  exact standsIn_of_mem_numbered ((List.dropWhile_suffix blankLine).subset kept)

theorem not_mem_of_mem_bodyLines {text : List Char} {line : List Char × Nat}
    (member : line ∈ bodyLines text) : '\n' ∉ line.1 := by
  obtain ⟨before, after, -, unbroken, -⟩ := standsIn_of_mem_bodyLines member
  exact unbroken

end Lines

end Rhythm.Text
