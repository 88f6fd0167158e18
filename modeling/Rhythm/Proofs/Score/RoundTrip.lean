import Rhythm.Proofs.Decimal.RoundTrip
import Rhythm.Proofs.Score.Reading
import Rhythm.Score.Writer

/-
This file shows that a written score is read back as it was. The main statement is
`Score.round_trip`.
-/

namespace Rhythm

open Outcome Text

section Events

/-- Written beats are read back bit for bit. -/
theorem readFloat?_beatsText {beats : Float} (lasts : Lasts beats) :
    Decimal.readFloat? (beatsText beats) = some beats :=
  Decimal.readFloat?_plain lasts

/-- A written pitch spells itself. -/
theorem Pitch.spells_code (pitch : Pitch) : SpellsPitch pitch.code pitch := by
  have digit : Numeral.write pitch.octave.val = [Nat.digitChar pitch.octave.val] :=
    Nat.toDigits_of_lt_base pitch.octave.isLt
  rw [SpellsPitch, Pitch.code, digit]

/-- A note is written with its flags, if it has some. -/
theorem Note.spells_flags (note : Note) :
    (note.flags = [] ∧ note.tied = false ∧ note.unbeamed = false) ∨
      ∃ flags, note.flags = '/' :: flags ∧ SpellsFlags flags note.tied note.unbeamed := by
  rcases note with ⟨duration, pitch, _ | _, _ | _⟩
  · exact Or.inl ⟨rfl, rfl, rfl⟩
  · exact Or.inr ⟨['U'], rfl, ['U'], by decide, by simp, rfl, rfl, rfl⟩
  · exact Or.inr ⟨['T'], rfl, ['T'], by decide, by simp, rfl, rfl, rfl⟩
  · exact Or.inr ⟨['T', ',', 'U'], rfl, ['T', 'U'], by decide, by simp, rfl, rfl, rfl⟩

/-- A written event spells its draft. -/
theorem Event.spells_token (event : Event) : SpellsEvent event.token event.draft := by
  cases event with
  | note sound =>
      have number := readFloat?_beatsText sound.duration.lasts
      obtain ⟨written, tied, unbeamed⟩ | ⟨flags, written, marked⟩ := sound.spells_flags
      · rw [Event.token, Event.draft, written, tied, unbeamed, List.append_nil]
        exact SpellsEvent.pitched number sound.pitch.spells_code
      · rw [Event.token, Event.draft, written]
        exact SpellsEvent.full number sound.pitch.spells_code marked
  | rest silence =>
      exact SpellsEvent.rest (readFloat?_beatsText silence.duration.lasts) (Or.inl rfl)

/-- A written event holds no hyphen, since durations are positive. -/
theorem Event.not_mem_token (event : Event) : '-' ∉ event.token := by
  have digits {beats : Float} (lasts : Lasts beats) : '-' ∉ beatsText beats := by
    intro member
    obtain digit | point := Decimal.mem_plain lasts member
    · cases digit
    · cases point
  intro member
  cases event with
  | note sound =>
      obtain inBeats | slash | later := mem_append_cons member
      · exact digits sound.duration.lasts inBeats
      · cases slash
      · obtain inPitch | inFlags := List.mem_append.mp later
        · cases sound.pitch.spells_code.isFieldCharacter inPitch
        · obtain ⟨written, -, -⟩ | ⟨flags, written, marked⟩ := sound.spells_flags
          · rw [written] at inFlags
            cases inFlags
          · rw [written] at inFlags
            obtain slash | inFlags := List.mem_cons.mp inFlags
            · cases slash
            · cases marked.isFieldCharacter inFlags
  | rest silence =>
      obtain inBeats | slash | inMark := mem_append_cons member
      · exact digits silence.duration.lasts inBeats
      · cases slash
      · cases List.mem_singleton.mp inMark

end Events

section Elements

/-- A written number spells itself. -/
theorem spellsNumeral_write (number : UInt32) :
    SpellsNumeral (Numeral.write number.toNat) number where
  nonempty := Numeral.write_ne_nil _
  digits _ member := Numeral.isDigit_of_mem_write member
  value := Nat.ofDigitChars_ten_toDigits

/-- A written element spells its draft. -/
theorem Element.spells_token (element : Element) : SpellsElement element.token element.draft := by
  cases element with
  | single event => exact SpellsElement.single event.spells_token
  | group tuplet =>
      refine SpellsElement.group (Or.inl (spellsNumeral_write tuplet.divisions))
        (by simpa using tuplet.events_ne) ?_
      rw [List.forall₂_map_left_iff, List.forall₂_map_right_iff, List.forall₂_same]
      exact fun event _ => ⟨event.not_mem_token, event.spells_token⟩

end Elements

section Measures

/-- The groups of a measure count as its own when they differ from those of its meter. -/
def Measure.ownGrouping? (measure : Measure) : Option (List UInt32) :=
  if measure.grouping = measure.meter.defaultGrouping then none else some measure.grouping

/-- The draft of a measure forgets what was checked. -/
def Measure.draft (measure : Measure) : MeasureDraft :=
  ⟨measure.meter, measure.ownGrouping?, measure.elements.map Element.draft⟩

/-- A measure realizes its draft. -/
theorem Measure.draft_realizes (measure : Measure) : measure.draft.Realizes measure := by
  refine ⟨rfl, ?_, rfl⟩
  change _ = measure.ownGrouping?.getD measure.meter.defaultGrouping
  unfold Measure.ownGrouping?
  split
  case isTrue same => exact same
  case isFalse => rfl

/-- The part of a written measure before its colon. -/
def Measure.intro (measure : Measure) : List Char :=
  measure.meter.code ++ measure.groupingCode

theorem Meter.code_eq (meter : Meter) : meter.code =
    Numeral.write meter.count.toNat ++ '/' :: Numeral.write meter.unit.toNat :=
  rfl

/-- Before its colon a measure spells its meter and its own groups, with at most one space between
them. -/
theorem Measure.exists_spelled_intro (measure : Measure) : ∃ code groups,
    SpellsIntro (code ++ groups) measure.meter measure.ownGrouping? ∧
      (measure.intro = code ++ groups ∨ measure.intro = code ++ ' ' :: groups) := by
  have upper : SpellsWord (Numeral.write measure.meter.count.toNat) measure.meter.count :=
    Or.inl (spellsNumeral_write _)
  have lower : SpellsWord (Numeral.write measure.meter.unit.toNat) measure.meter.unit :=
    Or.inl (spellsNumeral_write _)
  unfold Measure.intro Measure.ownGrouping? Measure.groupingCode
  split
  case isTrue same =>
    refine ⟨measure.meter.code, [], ?_, Or.inl rfl⟩
    rw [List.append_nil]
    exact SpellsIntro.plain upper lower
  case isFalse different =>
    refine ⟨measure.meter.code, _, ?_, Or.inr rfl⟩
    rw [Meter.code_eq, List.append_assoc, List.cons_append]
    refine SpellsIntro.grouped upper lower ?_ ?_
    · simpa using measure.wellformed.partitions.nonempty
    · rw [List.forall₂_map_left_iff, List.forall₂_same]
      exact fun group _ => spellsNumeral_write group

/-- Without its blanks the part before the colon spells the meter and its own groups. -/
theorem Measure.spells_intro (measure : Measure) :
    SpellsIntro (squeeze measure.intro) measure.meter measure.ownGrouping? := by
  obtain ⟨code, groups, spelled, written⟩ := measure.exists_spelled_intro
  have compact : squeeze (code ++ groups) = code ++ groups :=
    squeeze_eq_self fun _ => spelled.solid
  have squeezed : squeeze measure.intro = code ++ groups := by
    obtain same | spaced := written
    · rw [same, compact]
    · rw [spaced, ← compact, squeeze_append, squeeze_append]
      rfl
  rw [squeezed]
  exact spelled

/-- The only blanks before the colon are spaces. -/
theorem Measure.mem_intro {measure : Measure} {character : Char}
    (member : character ∈ measure.intro) :
    character = ' ' ∨ (character ≠ ':' ∧ isBlank character = false) := by
  obtain ⟨code, groups, spelled, written⟩ := measure.exists_spelled_intro
  have inside : character = ' ' ∨ character ∈ code ++ groups := by
    obtain same | spaced := written
    · exact Or.inr (same ▸ member)
    · rw [spaced] at member
      obtain inCode | space | inGroups := mem_append_cons member
      · exact Or.inr (List.mem_append_left _ inCode)
      · exact Or.inl space
      · exact Or.inr (List.mem_append_right _ inGroups)
  obtain space | inSpelled := inside
  · exact Or.inl space
  · have other : character ≠ ':' := by
      rintro rfl
      obtain digit | mark := spelled.characters inSpelled
      · cases digit
      · revert mark
        decide
    exact Or.inr ⟨other, spelled.solid inSpelled⟩

theorem Measure.not_mem_intro (measure : Measure) : ':' ∉ measure.intro := by
  intro member
  obtain space | ⟨other, -⟩ := Measure.mem_intro member
  · cases space
  · exact other rfl

/-- The words after the colon are the written elements. -/
theorem Measure.words_contents (measure : Measure) :
    words (measure.elements.flatMap fun element => ' ' :: element.token) =
      measure.elements.map Element.token := by
  have flat : (measure.elements.flatMap fun element => ' ' :: element.token) =
      (measure.elements.map Element.token).flatMap fun token => ' ' :: token := by
    rw [List.flatMap_map]
  rw [flat, words_flatMap]
  intro token member
  obtain ⟨element, -, rfl⟩ := List.mem_map.mp member
  exact ⟨element.spells_token.ne_nil, fun _ => element.spells_token.solid⟩

/-- A written measure spells its draft. -/
theorem Measure.spells_line (measure : Measure) : Spells measure.line measure.draft := by
  refine ⟨measure.intro, _, rfl, measure.not_mem_intro, measure.spells_intro, ?_, ?_⟩
  · rw [measure.words_contents]
    simpa using measure.wellformed.nonempty
  · rw [measure.words_contents, Measure.draft, List.forall₂_map_left_iff,
      List.forall₂_map_right_iff, List.forall₂_same]
    exact fun element _ => element.spells_token

/-- A written measure is read back as it was. -/
theorem Measure.read_line (measure : Measure) : Measure.read measure.line = .ok measure := by
  rw [Measure.read_of_spells measure.spells_line,
    MeasureDraft.build_eq_ok_iff.mpr measure.draft_realizes]
  rfl

/-- A written measure starts with a digit and ends with the last character of its last element. -/
theorem Measure.line_tight (measure : Measure) : Tight measure.line := by
  constructor
  · obtain ⟨first, rest, written⟩ :=
      List.exists_cons_of_ne_nil (Numeral.write_ne_nil measure.meter.count.toNat)
    have digit : first.isDigit = true :=
      Numeral.isDigit_of_mem_write (written ▸ List.mem_cons_self)
    exact ⟨first, _, by rw [Measure.line, Meter.code_eq, written]; rfl, isBlank_of_isDigit digit⟩
  · obtain ⟨front, element, written⟩ :=
      List.eq_nil_or_concat measure.elements |>.resolve_left measure.wellformed.nonempty
    have spelled := element.spells_token
    obtain ⟨start, last, ending⟩ :=
      List.eq_nil_or_concat element.token |>.resolve_left spelled.ne_nil
    have solid : isBlank last = false := spelled.solid (by rw [ending]; simp)
    refine ⟨measure.intro ++
      ':' :: (front.flatMap (fun element => ' ' :: element.token) ++ ' ' :: start), last, ?_, solid⟩
    rw [Measure.line, written, List.concat_eq_append, List.flatMap_append, List.flatMap_singleton,
      ending, List.concat_eq_append]
    simp [Measure.intro]

/-- A written measure takes one line. -/
theorem Measure.line_unbroken (measure : Measure) : '\n' ∉ measure.line := by
  intro member
  obtain inIntro | colon | inContents := mem_append_cons member
  · obtain space | ⟨-, solid⟩ := Measure.mem_intro inIntro
    · cases space
    · cases solid
  · cases colon
  · obtain ⟨element, -, inToken⟩ := List.mem_flatMap.mp inContents
    obtain space | inside := List.mem_cons.mp inToken
    · cases space
    · cases element.spells_token.solid inside

end Measures

section Scores

/-- Written measures are read back, whatever the numbers of their lines. -/
theorem Score.mapM_readLine (score : Score) (first : Nat) :
    ((score.map Measure.line).zipIdx first).mapM Score.readLine = .ok score := by
  induction score generalizing first with
  | nil => rfl
  | cons measure rest inductionHypothesis =>
      have own : Score.readLine (measure.line, first) = .ok measure := by
        rw [Score.readLine, measure.read_line]
        rfl
      rw [List.map_cons, List.zipIdx_cons, List.mapM_cons, own, inductionHypothesis]
      rfl

/-- A written score is read back as it was. -/
theorem Score.read_write (score : Score) : Score.read score.write = .ok score := by
  have tight : ∀ line ∈ score.map Measure.line, Tight line := by
    intro line member
    obtain ⟨measure, -, rfl⟩ := List.mem_map.mp member
    exact measure.line_tight
  have unbroken : ∀ line ∈ score.map Measure.line, '\n' ∉ line := by
    intro line member
    obtain ⟨measure, -, rfl⟩ := List.mem_map.mp member
    exact measure.line_unbroken
  rw [Score.read, Score.write, String.toList_ofList, Score.numberedLines,
    lines_trim_unlines tight unbroken]
  exact score.mapM_readLine _

/-- A written score is read back bit for bit. Hence no two scores are written alike, and writing
what was read from a written score gives the same text again. -/
theorem Score.round_trip :
    (∀ score : Score, Score.read score.write = .ok score) ∧ Function.Injective Score.write ∧
      ∀ score : Score, (Score.read score.write).map Score.write = .ok score.write := by
  refine ⟨Score.read_write, ?_, ?_⟩
  · intro first second same
    have both := (Score.read_write first).symm.trans (same ▸ Score.read_write second)
    injection both
  · intro score
    rw [score.read_write]
    rfl

end Scores

end Rhythm
