import Rhythm.Proofs.Text.Line

/-
This file shows that what is cut from a text is a piece of it. The main statements are
`infix_of_mem_splitOn`, `infix_of_mem_words` and `infix_of_trim`.
-/

namespace Rhythm.Text

variable {text piece before after : List Char}

/-- The first piece of a text starts it, and the other ones follow. -/
theorem pieces_of_splitOnP {separates : Char → Bool} {first : List Char} {rest : List (List Char)}
    (cut : text.splitOnP separates = first :: rest) :
    first <+: text ∧ ∀ piece ∈ rest, piece <:+: text := by
  induction text generalizing first rest with
  | nil =>
      cases cut
      simp
  | cons character text inductionHypothesis =>
      obtain ⟨own, others, whole⟩ :=
        List.exists_cons_of_ne_nil (List.splitOnP_ne_nil separates text)
      obtain ⟨starts, follow⟩ := inductionHypothesis whole
      rw [List.splitOnP_cons_eq_if_modifyHead, whole] at cut
      split at cut
      case isTrue =>
        cases cut
        refine ⟨List.nil_prefix, fun piece member => ?_⟩
        obtain rfl | later := List.mem_cons.mp member
        · exact List.infix_cons starts.isInfix
        · exact List.infix_cons (follow piece later)
      case isFalse =>
        cases cut
        refine ⟨(List.prefix_cons_inj character).mpr starts, fun piece member => ?_⟩
        exact List.infix_cons (follow piece member)

theorem infix_of_mem_splitOnP {separates : Char → Bool}
    (member : piece ∈ text.splitOnP separates) : piece <:+: text := by
  obtain ⟨first, rest, cut⟩ := List.exists_cons_of_ne_nil (List.splitOnP_ne_nil separates text)
  obtain ⟨starts, follow⟩ := pieces_of_splitOnP cut
  rw [cut] at member
  obtain rfl | later := List.mem_cons.mp member
  · exact starts.isInfix
  · exact follow piece later

theorem infix_of_mem_splitOn {separator : Char} (member : piece ∈ text.splitOn separator) :
    piece <:+: text := by
  rw [List.splitOn_eq_splitOnP] at member
  exact infix_of_mem_splitOnP member

theorem infix_of_mem_words (member : piece ∈ words text) : piece <:+: text :=
  infix_of_mem_splitOnP (List.mem_of_mem_filter member)

theorem infix_of_trim (text : List Char) : trim text <:+: text :=
  (List.rdropWhile_prefix isBlank _).isInfix.trans (List.dropWhile_suffix isBlank).isInfix

/-- Both sides of a cut are pieces of the text. -/
theorem infix_of_cutAt {separator : Char} (cut : cutAt separator text = some (before, after)) :
    before <:+: text ∧ after <:+: text := by
  obtain ⟨rfl, -⟩ := cutAt_eq_some_iff.mp cut
  exact ⟨(List.prefix_append _ _).isInfix,
    ((List.suffix_cons separator after).trans (List.suffix_append before _)).isInfix⟩

end Rhythm.Text
