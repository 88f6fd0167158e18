import Rhythm.Level.FrontMatter
import Rhythm.Proofs.Text.Tidy

/-
This file says how a text is split at its marker lines. The main statements are `split_of_cut` and
`exists_cut_of_split`.
-/

namespace Rhythm.FrontMatter

open Text

/-- Lines are unmarked when none of them is a marker. -/
def Unmarked (lines : List (List Char)) : Prop :=
  ∀ line ∈ lines, isMarker line = false

instance (lines : List (List Char)) : Decidable (Unmarked lines) :=
  inferInstanceAs (Decidable (∀ line ∈ lines, isMarker line = false))

/-- Lines are cut at their two markers into the upper, the inner and the lower ones. -/
structure Cut (lines upper inner lower : List (List Char)) : Prop where
  whole : ∃ opening closing, lines = upper ++ opening :: (inner ++ closing :: lower) ∧
    isMarker opening = true ∧ isMarker closing = true
  upper_unmarked : Unmarked upper
  inner_unmarked : Unmarked inner
  lower_unmarked : Unmarked lower

variable {text line : List Char} {lines front rest upper inner lower : List (List Char)}

section Markers

theorem isMarker_of_trim_eq {other : List Char} (same : trim line = trim other) :
    isMarker line = isMarker other := by
  rw [isMarker, isMarker, same]

theorem unmarked_cons : Unmarked (line :: rest) ↔ isMarker line = false ∧ Unmarked rest :=
  List.forall_mem_cons

theorem unmarked_concat : Unmarked (front ++ [line]) ↔ Unmarked front ∧ isMarker line = false := by
  rw [Unmarked, List.forall_mem_append, List.forall_mem_singleton]
  rfl

theorem markers_eq_nil (unmarked : Unmarked lines) : markers lines = [] := by
  rw [markers, List.map_eq_nil_iff, List.filter_eq_nil_iff]
  intro line member
  rw [unmarked line.1 (List.fst_mem_of_mem_zipIdx member)]
  exact Bool.false_ne_true

/-- Lines that come after others have later indices. -/
theorem markers_append (front rest : List (List Char)) :
    markers (front ++ rest) = markers front ++ (markers rest).map (· + front.length) := by
  have later : rest.zipIdx (0 + front.length) =
      rest.zipIdx.map (Prod.map id (· + front.length)) := by
    rw [List.map_snd_add_zipIdx_eq_zipIdx, Nat.add_comm]
  rw [markers, List.zipIdx_append, List.filter_append, List.map_append, later, List.filter_map,
    List.map_map, markers, markers, List.map_map]
  rfl

/-- The first marker comes after the unmarked lines. -/
theorem markers_append_cons (unmarked : Unmarked front) (marker : isMarker line = true) :
    markers (front ++ line :: rest) =
      front.length :: (markers rest).map (· + (front.length + 1)) := by
  have own : markers [line] = [0] := by
    rw [markers, List.zipIdx_singleton, List.filter_cons_of_pos (by exact marker)]
    rfl
  rw [markers_append, markers_eq_nil unmarked, ← List.singleton_append, markers_append, own,
    List.nil_append, List.map_append, List.map_map, List.map_singleton, Nat.zero_add,
    List.singleton_append, List.length_singleton]
  congr 2
  funext index
  exact Nat.add_right_comm index 1 front.length

theorem Cut.markers (cut : Cut lines upper inner lower) :
    markers lines = [upper.length, inner.length + (upper.length + 1)] := by
  obtain ⟨⟨opening, closing, rfl, opens, closes⟩, upperUnmarked, innerUnmarked, lowerUnmarked⟩ :=
    cut
  rw [markers_append_cons upperUnmarked opens, markers_append_cons innerUnmarked closes,
    markers_eq_nil lowerUnmarked]
  rfl

/-- Lines are unmarked, or one of them is the first marker. -/
theorem exists_marker (lines : List (List Char)) : Unmarked lines ∨
    ∃ front line rest, lines = front ++ line :: rest ∧ Unmarked front ∧ isMarker line = true := by
  cases found : lines.find? isMarker with
  | none =>
      rw [List.find?_eq_none] at found
      exact .inl fun line member => (Bool.not_eq_true _).mp (found line member)
  | some line =>
      obtain ⟨marker, front, rest, whole, unmarked⟩ := List.find?_eq_some_iff_append.mp found
      refine .inr ⟨front, line, rest, whole, fun other member => ?_, marker⟩
      simpa using unmarked other member

/-- Lines are unmarked when no ink of theirs is a marker. -/
theorem unmarked_iff : Unmarked lines ↔ frontMatterMarker.toList ∉ inked lines := by
  have solid : frontMatterMarker.toList ≠ [] := by decide
  simp only [Unmarked, isMarker, inked, List.mem_filter, List.mem_map, beq_eq_false_iff_ne,
    decide_eq_true_eq, and_iff_left solid, not_exists, not_and]

/-- No marker is blank. -/
theorem unmarked_of_blank (blank : allBlank text = true) : Unmarked (text.splitOn '\n') := by
  rw [← all_allBlank_splitOn] at blank
  rw [unmarked_iff, inked_eq_nil blank]
  exact List.not_mem_nil

/-- Blanks around a text make no marker. -/
theorem unmarked_of_trim_eq {other : List Char} (same : trim text = trim other)
    (unmarked : Unmarked (text.splitOn '\n')) : Unmarked (other.splitOn '\n') := by
  rwa [unmarked_iff, ← inked_splitOn_trim, ← same, inked_splitOn_trim, ← unmarked_iff]

end Markers

section Closing

theorem Unmarked.map_dropReturn (unmarked : Unmarked lines) : Unmarked (lines.map dropReturn) := by
  rwa [unmarked_iff, inked_map_dropReturn, ← unmarked_iff]

theorem Unmarked.closeLines (unmarked : Unmarked lines) : Unmarked (closeLines lines) := by
  rwa [unmarked_iff, inked_closeLines, ← unmarked_iff]

/-- A marker stays a line of its own, even at the end of a text. -/
theorem closeLines_append_marker (front rest : List (List Char)) (marker : isMarker line = true) :
    ∃ closed, isMarker closed = true ∧
      closeLines (front ++ line :: rest) = front.map dropReturn ++ closed :: closeLines rest := by
  rw [closeLines_append front (List.cons_ne_nil line rest)]
  cases rest with
  | nil =>
      refine ⟨line, marker, ?_⟩
      cases line with
      | nil => cases marker
      | cons first others => rfl
  | cons next others =>
      exact ⟨dropReturn line, isMarker_of_trim_eq (trim_dropReturn line) ▸ marker, rfl⟩

theorem Cut.closeLines (cut : Cut lines upper inner lower) :
    Cut (closeLines lines) (upper.map dropReturn) (inner.map dropReturn) (closeLines lower) := by
  obtain ⟨⟨opening, closing, rfl, opens, closes⟩, upperUnmarked, innerUnmarked, lowerUnmarked⟩ :=
    cut
  obtain ⟨opened, openedMarker, front⟩ :=
    closeLines_append_marker upper (inner ++ closing :: lower) opens
  obtain ⟨closed, closedMarker, back⟩ := closeLines_append_marker inner lower closes
  refine ⟨⟨opened, closed, ?_, openedMarker, closedMarker⟩, upperUnmarked.map_dropReturn,
    innerUnmarked.map_dropReturn, lowerUnmarked.closeLines⟩
  rw [front, back]

/-- The first marker keeps its index. -/
theorem markers_closeLines (unmarked : Unmarked front) (marker : isMarker line = true) :
    markers (closeLines (front ++ line :: rest)) =
      front.length :: (markers (closeLines rest)).map (· + (front.length + 1)) := by
  obtain ⟨closed, closedMarker, whole⟩ := closeLines_append_marker front rest marker
  rw [whole, markers_append_cons unmarked.map_dropReturn closedMarker, List.length_map]

theorem all_allBlank_closeLines (lines : List (List Char)) :
    (closeLines lines).all allBlank = lines.all allBlank := by
  obtain rfl | ⟨front, last, rfl⟩ := lines.eq_nil_or_concat'
  · rfl
  · rw [closeLines_append front (List.cons_ne_nil last []), List.all_append, List.all_append,
      all_allBlank_map_dropReturn, closeLines]
    cases last <;> rfl

end Closing

section Split

/-- The lines are split at the indices of the two markers. -/
theorem splitAt_append (upper inner lower : List (List Char)) (opening closing : List Char) :
    splitAt (upper ++ opening :: (inner ++ closing :: lower)) upper.length
        (inner.length + (upper.length + 1)) =
      if upper.all allBlank then .ok (inner, lower)
      else if lower.all allBlank then .ok (inner, upper)
      else .error .enclosed := by
  have front : upper ++ opening :: (inner ++ closing :: lower) =
      (upper ++ opening :: inner) ++ closing :: lower := by simp
  have whole : upper ++ opening :: (inner ++ closing :: lower) =
      (upper ++ opening :: (inner ++ [closing])) ++ lower := by simp
  have above : (upper ++ opening :: (inner ++ closing :: lower)).take upper.length = upper :=
    List.take_left
  have below : (upper ++ opening :: (inner ++ closing :: lower)).drop
      (inner.length + (upper.length + 1) + 1) = lower := by
    rw [whole]
    refine List.drop_left' ?_
    simp only [List.length_append, List.length_cons, List.length_nil]
    omega
  have block : ((upper ++ opening :: (inner ++ closing :: lower)).take
      (inner.length + (upper.length + 1))).drop (upper.length + 1) = inner := by
    rw [front, List.take_left' (by simp only [List.length_append, List.length_cons]; omega),
      List.append_cons]
    exact List.drop_left' (by simp)
  simp only [splitAt, above, below, block]

/-- Lines without markers are all in the body. -/
theorem split_of_unmarked_lines (unmarked : Unmarked (Text.lines text)) :
    split text = .ok (none, text) := by
  simp only [split, markers_eq_nil unmarked]

/-- A text without markers is its own body. -/
theorem split_of_unmarked (unmarked : Unmarked (text.splitOn '\n')) :
    split text = .ok (none, text) :=
  split_of_unmarked_lines unmarked.closeLines

/-- Two markers cut a text into its front matter and the lines around it, of which one side is blank
and the other one is the body. -/
theorem split_of_cut_lines (cut : Cut (Text.lines text) upper inner lower) :
    split text =
      if upper.all allBlank then .ok (some (unlines inner), unlines lower)
      else if lower.all allBlank then .ok (some (unlines inner), unlines upper)
      else .error .enclosed := by
  obtain ⟨opening, closing, whole, -, -⟩ := cut.whole
  simp only [split, cut.markers]
  rw [whole, splitAt_append]
  split_ifs <;> rfl

/-- A text with two markers has its body above or below them, with the other side blank. -/
theorem split_of_cut (cut : Cut (text.splitOn '\n') upper inner lower) :
    split text =
      if upper.all allBlank then
        .ok (some (unlines (inner.map dropReturn)), unlines (closeLines lower))
      else if lower.all allBlank then
        .ok (some (unlines (inner.map dropReturn)), unlines (upper.map dropReturn))
      else .error .enclosed := by
  rw [split_of_cut_lines cut.closeLines, all_allBlank_map_dropReturn, all_allBlank_closeLines]

/-- A text that is split has no markers or two. -/
theorem exists_cut_of_split {parts : Option (List Char) × List Char}
    (made : split text = .ok parts) :
    Unmarked (text.splitOn '\n') ∨ ∃ upper inner lower,
      Cut (text.splitOn '\n') upper inner lower := by
  obtain none | ⟨upper, opening, rest, whole, upperUnmarked, opens⟩ :=
    exists_marker (text.splitOn '\n')
  · exact .inl none
  have first : markers (closeLines (upper ++ opening :: rest)) = _ :=
    markers_closeLines upperUnmarked opens
  obtain restUnmarked | ⟨inner, closing, lower, rfl, innerUnmarked, closes⟩ := exists_marker rest
  · rw [markers_eq_nil restUnmarked.closeLines, ← whole] at first
    simp [split, lines, first] at made
  rw [markers_closeLines innerUnmarked closes, ← whole] at first
  obtain lowerUnmarked | ⟨between, third, later, rfl, betweenUnmarked, marker⟩ :=
    exists_marker lower
  · exact .inr ⟨upper, inner, lower, ⟨opening, closing, whole, opens, closes⟩, upperUnmarked,
      innerUnmarked, lowerUnmarked⟩
  · rw [markers_closeLines betweenUnmarked marker] at first
    simp [split, lines, first] at made

end Split

end Rhythm.FrontMatter
