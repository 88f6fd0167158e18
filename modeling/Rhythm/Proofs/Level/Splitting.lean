import Rhythm.Proofs.Level.LineNumber

/-
This file says what becomes of every line of a source when its front matter is split from its body.
The main statement is `Level.splitting_lossless`.
-/

namespace Rhythm

open FrontMatter Outcome Text

/-- A fault is structural when the markers stand wrong, whatever the fields are. -/
def FrontMatterFault.Structural : FrontMatterFault → Prop
  | unclosed _ | repeated _ | enclosed => True
  | unreadable | lenience _ => False

namespace FrontMatter

/-- The markers among some lines stand wrong when there is a single one, or a third one, or ink on
both sides of two. -/
inductive Breaks (lines : List (List Char)) : FrontMatterFault → Prop where
  | unclosed {front back : List (List Char)} {marker : List Char}
      (whole : lines = front ++ marker :: back) (marks : isMarker marker = true)
      (front_unmarked : Unmarked front) (back_unmarked : Unmarked back) :
      Breaks lines (.unclosed (front.length + 1))
  | repeated {front back upper inner lower : List (List Char)} {marker : List Char}
      (whole : lines = front ++ marker :: back) (marks : isMarker marker = true)
      (cut : Cut front upper inner lower) : Breaks lines (.repeated (front.length + 1))
  | enclosed {upper inner lower : List (List Char)} (cut : Cut lines upper inner lower)
      (upper_inked : upper.all allBlank = false) (lower_inked : lower.all allBlank = false) :
      Breaks lines .enclosed

section Breaks

variable {lines upper inner lower : List (List Char)} {text : List Char} {fault : FrontMatterFault}

theorem Breaks.structural (breaks : Breaks lines fault) : fault.Structural := by
  cases breaks <;> trivial

/-- Lines have no marker, or their markers stand wrong, or two of them have a blank side. -/
theorem breaks_cases (lines : List (List Char)) : Unmarked lines ∨
    (∃ fault, Breaks lines fault) ∨
    ∃ upper inner lower, Cut lines upper inner lower ∧
      (upper.all allBlank = true ∨ lower.all allBlank = true) := by
  obtain unmarked | ⟨upper, opening, rest, rfl, upperUnmarked, opens⟩ := exists_marker lines
  · exact .inl unmarked
  obtain restUnmarked | ⟨inner, closing, lower, rfl, innerUnmarked, closes⟩ := exists_marker rest
  · exact .inr (.inl ⟨_, .unclosed rfl opens upperUnmarked restUnmarked⟩)
  obtain lowerUnmarked | ⟨between, third, back, rfl, betweenUnmarked, marks⟩ :=
    exists_marker lower
  · have cut : Cut (upper ++ opening :: (inner ++ closing :: lower)) upper inner lower :=
      ⟨⟨opening, closing, rfl, opens, closes⟩, upperUnmarked, innerUnmarked, lowerUnmarked⟩
    by_cases blank : upper.all allBlank = true ∨ lower.all allBlank = true
    · exact .inr (.inr ⟨upper, inner, lower, cut, blank⟩)
    · rw [not_or, Bool.not_eq_true, Bool.not_eq_true] at blank
      exact .inr (.inl ⟨_, .enclosed cut blank.1 blank.2⟩)
  · have cut : Cut (upper ++ opening :: (inner ++ closing :: between)) upper inner between :=
      ⟨⟨opening, closing, rfl, opens, closes⟩, upperUnmarked, innerUnmarked, betweenUnmarked⟩
    have whole : upper ++ opening :: (inner ++ closing :: (between ++ third :: back)) =
        (upper ++ opening :: (inner ++ closing :: between)) ++ third :: back := by simp
    exact .inr (.inl ⟨_, .repeated whole marks cut⟩)

/-- A split reports the markers that stand wrong. -/
theorem Breaks.split (breaks : Breaks (Text.lines text) fault) : split text = .error fault := by
  cases breaks with
  | @unclosed front back _ whole marks frontUnmarked backUnmarked =>
      have found : markers (Text.lines text) = [front.length] := by
        rw [whole, markers_append_cons frontUnmarked marks, markers_eq_nil backUnmarked]
        rfl
      simp only [FrontMatter.split, found]
  | @repeated front back _ _ _ marker whole marks cut =>
      have third : markers (marker :: back) = _ :=
        markers_append_cons (List.forall_mem_nil _) marks
      simp only [FrontMatter.split, whole, markers_append, cut.markers, third, List.map_cons,
        List.cons_append, List.nil_append, List.length_nil, Nat.zero_add]
  | enclosed cut upperInked lowerInked =>
      rw [split_of_cut_lines cut, upperInked, lowerInked]
      rfl

/-- The body of a text with two markers has the lines outside them. -/
theorem split_of_cut_blank (cut : Cut (Text.lines text) upper inner lower)
    (blank : upper.all allBlank = true ∨ lower.all allBlank = true) :
    ∃ body, split text = .ok (some (unlines inner), body) ∧
      trim body = trim (unlines (upper ++ lower)) := by
  rw [split_of_cut_lines cut]
  by_cases upperBlank : upper.all allBlank = true
  · rw [if_pos upperBlank]
    exact ⟨_, rfl, (trim_unlines_append_left upperBlank lower).symm⟩
  · have lowerBlank := blank.resolve_left upperBlank
    rw [if_neg upperBlank, if_pos lowerBlank]
    exact ⟨_, rfl, (trim_unlines_append_right lowerBlank upper).symm⟩

/-- A split fails only when the markers stand wrong. -/
theorem split_eq_error_iff : split text = .error fault ↔ Breaks (Text.lines text) fault := by
  constructor
  · intro failed
    obtain unmarked | ⟨other, breaks⟩ | ⟨upper, inner, lower, cut, blank⟩ :=
      breaks_cases (Text.lines text)
    · rw [split_of_unmarked_lines unmarked] at failed
      cases failed
    · have same := breaks.split.symm.trans failed
      cases same
      exact breaks
    · obtain ⟨body, made, -⟩ := split_of_cut_blank cut blank
      rw [made] at failed
      cases failed
  · exact Breaks.split

theorem Unmarked.countP_eq_zero (unmarked : Unmarked lines) : lines.countP isMarker = 0 :=
  List.countP_eq_zero.mpr fun line member =>
    (Bool.not_eq_true _).mpr (unmarked line member)

theorem Cut.countP_eq_two (cut : Cut lines upper inner lower) : lines.countP isMarker = 2 := by
  obtain ⟨⟨opening, closing, rfl, opens, closes⟩, upperUnmarked, innerUnmarked, lowerUnmarked⟩ :=
    cut
  rw [List.countP_append, List.countP_cons_of_pos opens, List.countP_append,
    List.countP_cons_of_pos closes, upperUnmarked.countP_eq_zero, innerUnmarked.countP_eq_zero,
    lowerUnmarked.countP_eq_zero]

/-- Markers that are neither none nor two stand wrong. -/
theorem exists_breaks_of_countP (present : lines.countP isMarker ≠ 0)
    (other : lines.countP isMarker ≠ 2) : ∃ fault, Breaks lines fault := by
  obtain unmarked | breaks | ⟨upper, inner, lower, cut, -⟩ := breaks_cases lines
  · exact absurd unmarked.countP_eq_zero present
  · exact breaks
  · exact absurd cut.countP_eq_two other

/-- Whether the markers stand wrong depends on their number and on the ink around them. -/
theorem exists_breaks_iff : (∃ fault, Breaks lines fault) ↔
    lines.countP isMarker = 1 ∨ 2 < lines.countP isMarker ∨
      ∃ upper inner lower, Cut lines upper inner lower ∧ upper.all allBlank = false ∧
        lower.all allBlank = false := by
  constructor
  · rintro ⟨fault, breaks⟩
    cases breaks with
    | unclosed whole marks frontUnmarked backUnmarked =>
        rw [whole, List.countP_append, List.countP_cons_of_pos marks,
          frontUnmarked.countP_eq_zero, backUnmarked.countP_eq_zero]
        exact .inl rfl
    | repeated whole marks cut =>
        rw [whole, List.countP_append, List.countP_cons_of_pos marks, cut.countP_eq_two]
        exact .inr (.inl (by omega))
    | enclosed cut upperInked lowerInked =>
        exact .inr (.inr ⟨_, _, _, cut, upperInked, lowerInked⟩)
  · rintro (one | more | ⟨upper, inner, lower, cut, upperInked, lowerInked⟩)
    · exact exists_breaks_of_countP (by omega) (by omega)
    · exact exists_breaks_of_countP (by omega) (by omega)
    · exact ⟨_, .enclosed cut upperInked lowerInked⟩

end Breaks

section Parts

variable {upper inner lower : List (List Char)} {text body : List Char}
  {block : Option (List Char)}

/-- The ink outside two markers is that of the body. -/
theorem Cut.inked_body (cut : Cut (Text.lines text) upper inner lower)
    (same : trim body = trim (unlines (upper ++ lower))) :
    inked (Text.lines (trim body)) = inked upper ++ inked lower := by
  have fresh : ∀ line ∈ Text.lines text, '\n' ∉ line := fun _ => not_mem_of_mem_lines
  obtain ⟨opening, closing, whole, -, -⟩ := cut.whole
  rw [whole, List.forall_mem_append, List.forall_mem_cons, List.forall_mem_append,
    List.forall_mem_cons] at fresh
  obtain ⟨upperFresh, -, -, -, lowerFresh⟩ := fresh
  rw [same, inked_lines_trim, inked_lines_unlines, inked_append]
  exact List.forall_mem_append.mpr ⟨upperFresh, lowerFresh⟩

/-- No line of a body is a marker. -/
theorem unmarked_of_split (made : split text = .ok (block, body)) :
    Unmarked (Text.lines (trim body)) := by
  obtain unmarked | ⟨fault, breaks⟩ | ⟨upper, inner, lower, cut, blank⟩ :=
    breaks_cases (Text.lines text)
  · rw [split_of_unmarked_lines unmarked] at made
    cases made
    rwa [unmarked_iff, inked_lines_trim, ← unmarked_iff]
  · rw [breaks.split] at made
    cases made
  · obtain ⟨own, outcome, same⟩ := split_of_cut_blank cut blank
    rw [outcome] at made
    cases made
    rw [unmarked_iff, cut.inked_body same, List.mem_append, not_or, ← unmarked_iff,
      ← unmarked_iff]
    exact ⟨cut.upper_unmarked, cut.lower_unmarked⟩

end Parts

end FrontMatter

namespace Level

section Splitting

/-- A reader blames the fields when it never finds fault with the structure of a level. -/
def BlamesFields (reader : List Char → Except FrontMatterFault LevelFields) : Prop :=
  ∀ text fault, reader text = .error fault → ¬ fault.Structural

variable {reader : List Char → Except FrontMatterFault LevelFields} {source : String}
  {fault : FrontMatterFault}

theorem blamesFields_mappedFields : BlamesFields mappedFields := by
  intro text fault failed
  unfold mappedFields at failed
  split at failed <;> cases failed
  exact id

/-- The fields of a level are not to blame for its structure. -/
theorem BlamesFields.readFieldsWith {block : Option (List Char)} (blames : BlamesFields reader)
    (failed : readFieldsWith reader block = .error fault) : ¬ fault.Structural := by
  cases block with
  | none => cases failed
  | some text =>
      rw [Level.readFieldsWith] at failed
      split_ifs at failed
      exact blames text fault failed

theorem not_structural_of_ofFields {fields : LevelFields} {body : List Char}
    (failed : ofFields fields body = .error fault) : ¬ fault.Structural := by
  obtain failed | ⟨_, -, failed⟩ := bind_eq_error_iff.mp failed
  · unfold checkLenience at failed
    split_ifs at failed
    cases failed
    exact id
  · cases failed

/-- A level fails for its structure when its source cannot be split. -/
theorem split_eq_error_iff_read (blames : BlamesFields reader) :
    split source.toList = .error fault ↔
      readWith reader source = .error fault ∧ fault.Structural := by
  rw [readWith, bind_eq_error_iff]
  constructor
  · intro failed
    exact ⟨.inl failed, (split_eq_error_iff.mp failed).structural⟩
  · rintro ⟨failed | ⟨⟨block, body⟩, made, failed⟩, structural⟩
    · exact failed
    · obtain failed | ⟨fields, -, failed⟩ := bind_eq_error_iff.mp failed
      · exact absurd structural (blames.readFieldsWith failed)
      · exact absurd structural (not_structural_of_ofFields failed)

/-- A source without markers is the body of a standard level. -/
theorem read_of_unmarked {body : List Char} (unmarked : Unmarked (lines body)) :
    readWith reader (String.ofList body) =
      .ok { standard with body := String.ofList (trim body) } := by
  rw [readWith, String.toList_ofList, split_of_unmarked_lines unmarked]
  rfl

/-- A source cannot be split if and only if it has a single marker, or more than two, or ink both
above and below two. A level is refused for its structure in these cases only, whatever reads its
fields and blames only them. A source without markers is all body. Otherwise the front matter has
the lines between the markers, and the trimmed body has the ink of all other lines, in their order.
No line of it is a marker, and it is its own body when it is read again. -/
theorem splitting_lossless (reader : List Char → Except FrontMatterFault LevelFields)
    (source : String) :
    ((∃ fault, split source.toList = .error fault) ↔
      (lines source.toList).countP isMarker = 1 ∨ 2 < (lines source.toList).countP isMarker ∨
        ∃ upper inner lower, Cut (lines source.toList) upper inner lower ∧
          upper.all allBlank = false ∧ lower.all allBlank = false) ∧
    (∀ fault, (split source.toList = .error fault ↔ Breaks (lines source.toList) fault) ∧
      (BlamesFields reader → (split source.toList = .error fault ↔
        readWith reader source = .error fault ∧ fault.Structural))) ∧
    BlamesFields mappedFields ∧
    (Unmarked (lines source.toList) → split source.toList = .ok (none, source.toList)) ∧
    (∀ upper inner lower, Cut (lines source.toList) upper inner lower →
      upper.all allBlank = true ∨ lower.all allBlank = true →
        ∃ body, split source.toList = .ok (some (unlines inner), body) ∧
          trim body = trim (unlines (upper ++ lower)) ∧
          inked (lines (trim body)) = inked upper ++ inked lower) ∧
    ∀ block body, split source.toList = .ok (block, body) →
      Unmarked (lines (trim body)) ∧
      readWith reader (String.ofList (trim body)) =
        .ok { standard with body := String.ofList (trim body) } ∧
      ∀ level, readWith reader source = .ok level → level.body = String.ofList (trim body) := by
  refine ⟨?_, fun fault => ⟨split_eq_error_iff, split_eq_error_iff_read⟩,
    blamesFields_mappedFields, split_of_unmarked_lines,
    fun upper inner lower cut blank => ?_, fun block body made => ⟨unmarked_of_split made, ?_, ?_⟩⟩
  · rw [← exists_breaks_iff]
    exact exists_congr fun fault => split_eq_error_iff
  · obtain ⟨body, parts, same⟩ := split_of_cut_blank cut blank
    exact ⟨body, parts, same, cut.inked_body same⟩
  · rw [read_of_unmarked (unmarked_of_split made), trim_trim]
  · intro level reads
    obtain ⟨own, ownBody, parts, kept⟩ := body_of_read reads
    rw [made] at parts
    cases parts
    rw [← kept, String.ofList_toList]

end Splitting

end Level

end Rhythm
