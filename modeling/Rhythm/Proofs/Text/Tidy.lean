import Rhythm.Proofs.Text.Body

/-
This file follows texts that are cut into lines, joined again and trimmed. The main statements are
`tidied_of_trim_eq`, that blanks around a text make no difference, and `exists_numbering`, that its
lines stay in place.
-/

namespace Rhythm.Text

/-- Lines are joined without the returns at their ends, and trimmed. -/
def tidied (pieces : List (List Char)) : List Char :=
  trim (unlines (pieces.map dropReturn))

section Joining

variable {before after first last : List Char} {front back : List (List Char)}

theorem unlines_splitOn (text : List Char) : unlines (text.splitOn '\n') = text :=
  List.intercalate_splitOn '\n'

theorem unlines_append_cons (front back : List (List Char)) (piece : List Char) :
    unlines (front ++ piece :: back) =
      front.flatMap (· ++ ['\n']) ++ piece ++ back.flatMap ('\n' :: ·) :=
  intercalate_append_cons '\n' front back piece

theorem unlines_concat (front : List (List Char)) (last : List Char) :
    unlines (front ++ [last]) = front.flatMap (· ++ ['\n']) ++ last := by
  rw [unlines_append_cons, List.flatMap_nil, List.append_nil]

theorem unlines_cons (first : List Char) (back : List (List Char)) :
    unlines (first :: back) = first ++ back.flatMap ('\n' :: ·) :=
  unlines_append_cons [] back first

/-- Two texts that are joined share the line at the seam. -/
theorem splitOn_append (left : before.splitOn '\n' = front ++ [last])
    (right : after.splitOn '\n' = first :: back) :
    (before ++ after).splitOn '\n' = front ++ (last ++ first) :: back := by
  have leftFresh : ∀ piece ∈ front ++ [last], '\n' ∉ piece := fun piece member =>
    not_mem_of_mem_splitOn (left ▸ member)
  have rightFresh : ∀ piece ∈ first :: back, '\n' ∉ piece := fun piece member =>
    not_mem_of_mem_splitOn (right ▸ member)
  have whole : before ++ after = unlines (front ++ (last ++ first) :: back) := by
    rw [← unlines_splitOn before, ← unlines_splitOn after, left, right, unlines_concat,
      unlines_cons, unlines_append_cons]
    simp only [List.append_assoc]
  rw [whole]
  refine List.splitOn_intercalate '\n' ?_ (by simp)
  rw [List.forall_mem_append, List.forall_mem_singleton] at leftFresh
  rw [List.forall_mem_cons] at rightFresh
  rw [List.forall_mem_append, List.forall_mem_cons, List.mem_append, not_or]
  exact ⟨leftFresh.1, ⟨leftFresh.2, rightFresh.1⟩, rightFresh.2⟩

end Joining

section Tidied

variable {character : Char} {text : List Char} {front pieces : List (List Char)}
  {last : List Char}

/-- Trimming takes the return of the last line in any case. -/
theorem tidied_concat (front : List (List Char)) (last : List Char) :
    tidied (front ++ [last]) = trim (unlines (front.map dropReturn ++ [last])) := by
  obtain ⟨margin, blank, whole⟩ := eq_dropReturn_append last
  rw [tidied, List.map_append, List.map_singleton, unlines_concat, unlines_concat]
  conv_rhs => rw [whole, ← List.append_assoc, trim_append_margin blank]

/-- An empty line at the end is lost. -/
theorem tidied_concat_nil (pieces : List (List Char)) :
    tidied (pieces ++ [[]]) = tidied pieces := by
  obtain rfl | ⟨front, last, rfl⟩ := pieces.eq_nil_or_concat'
  · rfl
  · rw [tidied_concat, tidied, unlines_concat, List.append_nil, List.map_append,
      List.flatMap_append, List.map_singleton, List.flatMap_singleton, ← List.append_assoc,
      ← unlines_concat, trim_append_margin (by decide)]

/-- An empty line at the start is lost. -/
theorem tidied_nil_cons (pieces : List (List Char)) : tidied ([] :: pieces) = tidied pieces := by
  cases pieces with
  | nil => rfl
  | cons first rest =>
      rw [tidied, tidied, List.map_cons, List.map_cons, unlines_cons, List.flatMap_cons,
        List.cons_append, ← unlines_cons]
      exact trim_cons (by decide)

/-- The lines of a text, joined and trimmed, are tidied. -/
theorem trim_unlines_closeLines (pieces : List (List Char)) :
    trim (unlines (closeLines pieces)) = tidied pieces := by
  obtain rfl | ⟨front, last, rfl⟩ := pieces.eq_nil_or_concat'
  · rfl
  · rw [closeLines_append front (List.cons_ne_nil last []), closeLines]
    cases last with
    | nil => rw [tidied_concat_nil, tidied, List.isEmpty_nil, if_pos rfl, List.append_nil]
    | cons first rest => rw [tidied_concat, List.isEmpty_cons, if_neg Bool.false_ne_true]

/-- A blank before a line stays before it or is its return. -/
theorem exists_dropReturn_cons (blank : isBlank character = true) (line : List Char) :
    ∃ margin, allBlank margin = true ∧
      dropReturn (character :: line) = margin ++ dropReturn line := by
  cases line with
  | nil =>
      refine ⟨dropReturn [character], ?_, (List.append_nil _).symm⟩
      rw [← trim_eq_nil_iff, trim_dropReturn, trim_cons blank]
      rfl
  | cons first rest =>
      refine ⟨[character], allBlank_singleton blank, ?_⟩
      rw [dropReturn, dropReturn, dropLast?, dropLast?, List.getLast?_cons_cons,
        List.dropLast_cons_cons]
      split <;> rfl

/-- A blank at the start of a text is lost. -/
theorem tidied_splitOn_cons (blank : isBlank character = true) (text : List Char) :
    tidied ((character :: text).splitOn '\n') = tidied (text.splitOn '\n') := by
  by_cases feed : character = '\n'
  · rw [feed, List.splitOn_cons_eq_if_modifyHead, if_pos (by rfl), tidied_nil_cons]
  · obtain ⟨first, rest, cut, longer⟩ := splitOn_cons feed text
    obtain ⟨margin, marginBlank, same⟩ := exists_dropReturn_cons blank first
    rw [longer, cut, tidied, tidied, List.map_cons, List.map_cons, unlines_cons, unlines_cons, same,
      List.append_assoc, trim_margin_append marginBlank]

/-- A blank at the end of a text is lost. -/
theorem tidied_splitOn_concat (blank : isBlank character = true) (text : List Char) :
    tidied ((text ++ [character]).splitOn '\n') = tidied (text.splitOn '\n') := by
  by_cases feed : character = '\n'
  · rw [feed, List.splitOn_append_cons_self, List.splitOn_nil, tidied_concat_nil]
  · obtain ⟨front, last, cut, longer⟩ := splitOn_concat feed text
    rw [longer, cut, tidied_concat, tidied_concat, unlines_concat, unlines_concat,
      ← List.append_assoc, trim_append_margin (allBlank_singleton blank)]

/-- Blanks around a text make no difference when it is tidied. -/
theorem tidied_of_trim_eq {other : List Char} (same : trim text = trim other) :
    tidied (text.splitOn '\n') = tidied (other.splitOn '\n') := by
  have ignored (text : List Char) :
      tidied ((trim text).splitOn '\n') = tidied (text.splitOn '\n') :=
    apply_trim (fun text => tidied (text.splitOn '\n'))
      (fun _ text blank => tidied_splitOn_cons blank text)
      (fun text _ blank => tidied_splitOn_concat blank text) text
  rw [← ignored text, same, ignored]

theorem allBlank_of_trim_eq {other : List Char} (same : trim text = trim other) :
    allBlank text = allBlank other := by
  rw [Bool.eq_iff_iff, ← trim_eq_nil_iff, ← trim_eq_nil_iff, same]

theorem all_allBlank_map_dropReturn (lines : List (List Char)) :
    (lines.map dropReturn).all allBlank = lines.all allBlank := by
  rw [List.all_map]
  congr 1
  exact funext fun line => allBlank_of_trim_eq (trim_dropReturn line)

/-- A joined text is blank when its lines are. -/
theorem allBlank_unlines (pieces : List (List Char)) :
    allBlank (unlines pieces) = pieces.all allBlank := by
  cases pieces with
  | nil => rfl
  | cons first rest =>
      rw [unlines_cons, allBlank, List.all_append, List.all_flatMap]
      rfl

theorem all_allBlank_splitOn (text : List Char) :
    (text.splitOn '\n').all allBlank = allBlank text := by
  rw [← allBlank_unlines, unlines_splitOn]

/-- Blank lines above others are trimmed. -/
theorem trim_unlines_append_left (blank : front.all allBlank = true)
    (pieces : List (List Char)) : trim (unlines (front ++ pieces)) = trim (unlines pieces) := by
  cases pieces with
  | nil =>
      rw [List.append_nil, trim_eq_nil_iff.mpr ((allBlank_unlines front).trans blank)]
      rfl
  | cons first rest =>
      have margin : allBlank (front.flatMap (· ++ ['\n'])) = true := by
        rw [allBlank, List.all_flatMap]
        simpa [allBlank, show isBlank '\n' = true by decide] using blank
      rw [unlines_append_cons, List.append_assoc, ← unlines_cons, trim_margin_append margin]

/-- Blank lines below others are trimmed. -/
theorem trim_unlines_append_right (blank : front.all allBlank = true)
    (pieces : List (List Char)) : trim (unlines (pieces ++ front)) = trim (unlines pieces) := by
  obtain rfl | ⟨first, last, rfl⟩ := pieces.eq_nil_or_concat'
  · rw [List.nil_append, trim_eq_nil_iff.mpr ((allBlank_unlines front).trans blank)]
    rfl
  · have margin : allBlank (front.flatMap ('\n' :: ·)) = true := by
      rw [allBlank, List.all_flatMap]
      simpa [allBlank, show isBlank '\n' = true by decide] using blank
    rw [← List.append_cons, unlines_append_cons, unlines_concat, trim_append_margin margin]

/-- Nothing is left of lines that are tidied if and only if they are blank. -/
theorem tidied_eq_nil_iff : tidied pieces = [] ↔ pieces.all allBlank = true := by
  rw [tidied, trim_eq_nil_iff, allBlank_unlines, all_allBlank_map_dropReturn]

end Tidied

section Inked

variable {text : List Char} {pieces : List (List Char)}

/-- The lines that are not blank, each without the blanks at its two ends. -/
def inked (lines : List (List Char)) : List (List Char) :=
  (lines.map trim).filter (· ≠ [])

theorem inked_append (front back : List (List Char)) :
    inked (front ++ back) = inked front ++ inked back := by
  rw [inked, List.map_append, List.filter_append]
  rfl

theorem inked_nil_cons (lines : List (List Char)) : inked ([] :: lines) = inked lines :=
  rfl

theorem inked_cons_of_trim_eq {line other : List Char} (same : trim line = trim other)
    (rest : List (List Char)) : inked (line :: rest) = inked (other :: rest) := by
  rw [inked, inked, List.map_cons, List.map_cons, same]

theorem inked_map_dropReturn (lines : List (List Char)) :
    inked (lines.map dropReturn) = inked lines := by
  rw [inked, List.map_map, show trim ∘ dropReturn = trim from funext trim_dropReturn]
  rfl

theorem inked_closeLines (lines : List (List Char)) : inked (closeLines lines) = inked lines := by
  obtain rfl | ⟨front, last, rfl⟩ := lines.eq_nil_or_concat'
  · rfl
  · rw [closeLines_append front (List.cons_ne_nil last []), inked_append, inked_append,
      inked_map_dropReturn, closeLines]
    cases last <;> rfl

/-- Blank lines have no ink. -/
theorem inked_eq_nil (blank : pieces.all allBlank = true) : inked pieces = [] := by
  rw [inked, List.filter_eq_nil_iff, List.forall_mem_map]
  intro line member
  simpa using trim_eq_nil_iff.mpr (List.all_eq_true.mp blank line member)

/-- Blanks around a text make no difference to the ink of its lines. -/
theorem inked_splitOn_trim (text : List Char) :
    inked ((trim text).splitOn '\n') = inked (text.splitOn '\n') := by
  refine apply_trim (fun text => inked (text.splitOn '\n')) ?_ ?_ text
  · intro character text blank
    by_cases feed : character = '\n'
    · rw [feed, List.splitOn_cons_eq_if_modifyHead, if_pos (by rfl), inked_nil_cons]
    · obtain ⟨first, rest, cut, longer⟩ := splitOn_cons feed text
      rw [longer, cut, inked_cons_of_trim_eq (trim_cons blank)]
  · intro text character blank
    by_cases feed : character = '\n'
    · rw [feed, List.splitOn_append_cons_self, List.splitOn_nil, inked_append]
      exact List.append_nil _
    · obtain ⟨front, last, cut, longer⟩ := splitOn_concat feed text
      rw [longer, cut, inked_append, inked_append,
        inked_cons_of_trim_eq (trim_append_margin (allBlank_singleton blank))]

/-- A text that is trimmed keeps its ink. -/
theorem inked_lines_trim (text : List Char) : inked (lines (trim text)) = inked (lines text) := by
  rw [lines, lines, inked_closeLines, inked_closeLines, inked_splitOn_trim]

/-- Lines that are joined keep their ink. -/
theorem inked_lines_unlines (fresh : ∀ piece ∈ pieces, '\n' ∉ piece) :
    inked (lines (unlines pieces)) = inked pieces := by
  rw [lines, inked_closeLines]
  by_cases empty : pieces = []
  · rw [empty]
    rfl
  · rw [unlines, List.splitOn_intercalate '\n' fresh empty]

end Inked

section Numbering

variable {text : List Char} {pieces : List (List Char)}

theorem map_fst_trimmed_zipIdx (pieces : List (List Char)) (number : Nat) :
    ((pieces.zipIdx number).map trimmed).map Prod.fst = pieces.map trim := by
  rw [List.map_map, show Prod.fst ∘ trimmed = trim ∘ Prod.fst from rfl, ← List.map_map,
    List.zipIdx_map_fst]

theorem not_mem_dropReturn {line : List Char} (fresh : '\n' ∉ line) : '\n' ∉ dropReturn line := by
  obtain ⟨margin, -, whole⟩ := eq_dropReturn_append line
  rw [whole] at fresh
  exact fun member => fresh (List.mem_append_left margin member)

/-- No line of a text holds a line feed. -/
theorem not_mem_of_mem_lines {line : List Char} (member : line ∈ lines text) : '\n' ∉ line := by
  have fresh : ∀ piece ∈ text.splitOn '\n', '\n' ∉ piece := fun _ => not_mem_of_mem_splitOn
  obtain empty | ⟨front, last, whole⟩ := (text.splitOn '\n').eq_nil_or_concat'
  · exact absurd empty (List.splitOn_ne_nil _ _)
  · rw [whole, List.forall_mem_append, List.forall_mem_singleton] at fresh
    rw [lines, whole, closeLines_append front (List.cons_ne_nil last []), closeLines,
      List.mem_append] at member
    obtain earlier | final := member
    · obtain ⟨piece, own, rfl⟩ := List.mem_map.mp earlier
      exact not_mem_dropReturn (fresh.1 piece own)
    · split at final
      · cases final
      · rw [List.mem_singleton.mp final]
        exact fresh.2

/-- Tidied lines are those from the first to the last one that is not blank, apart from the blanks
around each of them. They follow each other as before. -/
theorem exists_numbering (fresh : ∀ piece ∈ pieces, '\n' ∉ piece) (number : Nat) :
    ∃ first, number ≤ first ∧ (inkedLines (pieces.zipIdx number)).map trimmed =
      ((lines (tidied pieces)).zipIdx first).map trimmed := by
  by_cases empty : pieces = []
  · subst empty
    exact ⟨number, le_rfl, rfl⟩
  · have cut : (unlines (pieces.map dropReturn)).splitOn '\n' = pieces.map dropReturn := by
      refine List.splitOn_intercalate '\n' ?_ (by simpa using empty)
      exact List.forall_mem_map.mpr fun line member => not_mem_dropReturn (fresh line member)
    have same : (pieces.zipIdx number).map trimmed =
        (numbered number (unlines (pieces.map dropReturn))).map trimmed := by
      rw [numbered, cut, List.zipIdx_map, List.map_map]
      congr 1
      funext line
      exact congrArg (·, line.2) (trim_dropReturn line.1).symm
    rw [map_trimmed_inkedLines, same, ← map_trimmed_inkedLines, map_trimmed_inkedLines_numbered]
    exact ⟨_, Nat.le_add_right _ _, rfl⟩

/-- A text has the same lines when it is trimmed and when it is tidied, apart from the blanks around
each of them. -/
theorem map_trim_lines_tidied (text : List Char) :
    (lines (tidied (text.splitOn '\n'))).map trim = (lines (trim text)).map trim := by
  obtain ⟨first, -, tidy⟩ := exists_numbering (fun _ => not_mem_of_mem_splitOn) 1
  have plain := map_trimmed_inkedLines_numbered 1 text
  rw [numbered, tidy] at plain
  have lines := congrArg (List.map Prod.fst) plain
  rwa [map_fst_trimmed_zipIdx, map_fst_trimmed_zipIdx] at lines

end Numbering

end Rhythm.Text
