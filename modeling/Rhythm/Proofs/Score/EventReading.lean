import Rhythm.Proofs.Score.Grammar
import Rhythm.Proofs.Text.Numeral
import Rhythm.Score.Reader

/-
This file shows that events are read exactly from the texts that spell them. The main statements
are `Event.read_of_spells` and `Event.spells_of_read`.
-/

namespace Rhythm

open Outcome Text

section Words

variable {text : List Char} {number : UInt32}

theorem read?_eq_some_iff_spellsNumeral :
    Numeral.read? text = some number.toNat ↔ SpellsNumeral text number := by
  rw [Numeral.read?_eq_some_iff]
  exact ⟨fun ⟨nonempty, digits, value⟩ => ⟨nonempty, digits, value⟩,
    fun ⟨nonempty, digits, value⟩ => ⟨nonempty, digits, value⟩⟩

/-- A text without a plus sign is read as a word when it is a numeral. -/
theorem readWord?_eq_some_iff_of_not_mem (unsigned : '+' ∉ text) :
    Numeral.readWord? text = some number ↔ SpellsNumeral text number := by
  rw [Numeral.readWord?_eq_some_iff, Numeral.dropPlus_of_not_mem unsigned,
    read?_eq_some_iff_spellsNumeral]

/-- Words are read exactly from the texts that spell them. -/
theorem readWord?_eq_some_iff :
    Numeral.readWord? text = some number ↔ SpellsWord text number := by
  constructor
  · intro read
    rw [Numeral.readWord?_eq_some_iff, read?_eq_some_iff_spellsNumeral] at read
    unfold Numeral.dropPlus at read
    split at read
    case h_1 rest => exact Or.inr ⟨rest, rfl, read⟩
    case h_2 => exact Or.inl read
  · intro word
    obtain numeral | ⟨digits, rfl, numeral⟩ := word
    · exact (readWord?_eq_some_iff_of_not_mem (numeral.not_mem (by decide))).mpr numeral
    · rw [Numeral.readWord?_eq_some_iff]
      exact read?_eq_some_iff_spellsNumeral.mpr numeral

end Words

section Pitches

variable {token field : List Char}

/-- A part is expected with success when it is there. -/
theorem expect_eq_ok_iff {A : Type} {misprint : Misprint} {part : Option A} {value : A} :
    expect token misprint part = .ok value ↔ part = some value := by
  cases part <;> simp [expect]

theorem Letter.ofChar?_eq_some_iff {character : Char} {letter : Letter} :
    Letter.ofChar? character = some letter ↔ character = letter.toChar := by
  constructor
  · intro known
    unfold Letter.ofChar? at known
    split at known <;> first | (cases known; rfl) | cases known
  · rintro rfl
    exact Letter.ofChar?_toChar letter

/-- An octave is read exactly from its digit. -/
theorem octaveOf?_eq_some_iff {character : Char} {octave : Fin 10} :
    octaveOf? character = some octave ↔ character = Nat.digitChar octave.val := by
  unfold octaveOf?
  constructor
  · intro known
    split at known
    case isTrue digit =>
      obtain ⟨lower, upper⟩ := Char.isDigit_iff_toNat.mp digit
      change 48 ≤ character.toNat at lower
      change character.toNat ≤ 57 at upper
      have place : octave.val = character.toNat - 48 := by
        rw [← Option.some.inj known]
        exact Nat.mod_eq_of_lt (show character.toNat - 48 < 10 by omega)
      apply Char.toNat_inj.mp
      rw [Nat.toNat_digitChar_of_lt_ten octave.isLt, place]
      omega
    case isFalse => cases known
  · rintro rfl
    revert octave
    decide

/-- A field that a pitch is read from spells it. -/
theorem Pitch.spells_of_read {pitch : Pitch} (read : Pitch.read token field = .ok pitch) :
    SpellsPitch field pitch := by
  obtain ⟨⟨letter, accidental?, octave⟩, shape, inside⟩ := bind_eq_ok_iff.mp read
  obtain ⟨name, named, later⟩ := bind_eq_ok_iff.mp inside
  clear read inside
  rw [expect_eq_ok_iff] at shape named
  rw [Letter.ofChar?_eq_some_iff] at named
  split at shape
  case h_1 =>
    cases shape
    obtain ⟨accidental, natural, last⟩ := bind_eq_ok_iff.mp later
    cases natural
    obtain ⟨digit, known, equation⟩ := bind_eq_ok_iff.mp last
    cases equation
    rw [expect_eq_ok_iff, octaveOf?_eq_some_iff] at known
    rw [SpellsPitch, named, known]
    rfl
  case h_2 =>
    cases shape
    obtain ⟨accidental, coded, last⟩ := bind_eq_ok_iff.mp later
    obtain ⟨digit, known, equation⟩ := bind_eq_ok_iff.mp last
    cases equation
    rw [expect_eq_ok_iff, Accidental.ofCode?_eq_some_iff] at coded
    rw [expect_eq_ok_iff, octaveOf?_eq_some_iff] at known
    rw [SpellsPitch, named, known, coded]
    rfl
  case h_3 => cases shape

/-- A pitch is read from every field that spells it. -/
theorem Pitch.read_of_spells {pitch : Pitch} (named : SpellsPitch field pitch) :
    Pitch.read token field = .ok pitch := by
  obtain ⟨letter, accidental, octave⟩ := pitch
  have name := Letter.ofChar?_toChar letter
  have digit : octaveOf? (Nat.digitChar octave.val) = some octave :=
    octaveOf?_eq_some_iff.mpr rfl
  -- Without a code the field has two characters, and the reader takes another branch.
  cases coded : accidental.code? with
  | none =>
      have natural : accidental = .natural := by
        cases accidental <;> first | rfl | cases coded
      subst natural
      subst named
      exact bind_eq_ok_iff.mpr ⟨(letter.toChar, none, Nat.digitChar octave.val), rfl,
        bind_eq_ok_iff.mpr ⟨letter, expect_eq_ok_iff.mpr name,
          bind_eq_ok_iff.mpr ⟨.natural, rfl,
            bind_eq_ok_iff.mpr ⟨octave, expect_eq_ok_iff.mpr digit, rfl⟩⟩⟩⟩
  | some code =>
      have known := Accidental.ofCode?_eq_some_iff.mpr coded
      have spelled : field = [letter.toChar, code, Nat.digitChar octave.val] := by
        rw [named, coded]
        rfl
      subst spelled
      exact bind_eq_ok_iff.mpr ⟨(letter.toChar, some code, Nat.digitChar octave.val), rfl,
        bind_eq_ok_iff.mpr ⟨letter, expect_eq_ok_iff.mpr name,
          bind_eq_ok_iff.mpr ⟨accidental, expect_eq_ok_iff.mpr known,
            bind_eq_ok_iff.mpr ⟨octave, expect_eq_ok_iff.mpr digit, rfl⟩⟩⟩⟩

theorem Pitch.read_eq_ok_iff {pitch : Pitch} :
    Pitch.read token field = .ok pitch ↔ SpellsPitch field pitch :=
  ⟨Pitch.spells_of_read, Pitch.read_of_spells⟩

end Pitches

section Flags

variable {token field : List Char} {tied unbeamed : Bool}

/-- Flags are read from the first to the last. -/
theorem readFlags_eq_ok_iff {pieces : List (List Char)} :
    readFlags token pieces = .ok (tied, unbeamed) ↔
      ∃ flags : List Char, (∀ flag ∈ flags, flag = 'T' ∨ flag = 'U') ∧
        pieces = flags.map (fun flag => [flag]) ∧
          tied = decide ('T' ∈ flags) ∧ unbeamed = decide ('U' ∈ flags) := by
  constructor
  · intro read
    induction pieces generalizing tied unbeamed with
    | nil =>
        cases read
        exact ⟨[], by simp⟩
    | cons piece rest inductionHypothesis =>
        unfold readFlags at read
        split at read
        case isTrue tie =>
          obtain ⟨⟨tied, unbeamed⟩, later, equation⟩ := map_eq_ok_iff.mp read
          cases equation
          obtain ⟨flags, known, rfl, -, rfl⟩ := inductionHypothesis later
          exact ⟨'T' :: flags, by simpa using known, by rw [tie]; rfl, by simp, by simp⟩
        case isFalse =>
          split at read
          case isTrue beam =>
            obtain ⟨⟨tied, unbeamed⟩, later, equation⟩ := map_eq_ok_iff.mp read
            cases equation
            obtain ⟨flags, known, rfl, rfl, -⟩ := inductionHypothesis later
            exact ⟨'U' :: flags, by simpa using known, by rw [beam]; rfl, by simp, by simp⟩
          case isFalse => cases read
  · intro spelled
    obtain ⟨flags, known, rfl, rfl, rfl⟩ := spelled
    induction flags with
    | nil => rfl
    | cons flag rest inductionHypothesis =>
        obtain ⟨own, others⟩ := List.forall_mem_cons.mp known
        have later := inductionHypothesis others
        obtain rfl | rfl := own
        · simp [readFlags, later, Except.map]
        · simp [readFlags, later, Except.map]

/-- Flags are read exactly from the fields that spell them. -/
theorem readFlags_splitOn_eq_ok_iff :
    readFlags token (field.splitOn ',') = .ok (tied, unbeamed) ↔
      SpellsFlags field tied unbeamed := by
  rw [readFlags_eq_ok_iff]
  constructor
  · intro read
    obtain ⟨flags, known, cut, marks⟩ := read
    have joined : [','].intercalate (field.splitOn ',') = field := List.intercalate_splitOn ','
    rw [cut] at joined
    refine ⟨flags, ?_, known, joined.symm, marks⟩
    rintro rfl
    exact List.splitOn_ne_nil ',' field cut
  · intro spelled
    obtain ⟨flags, nonempty, known, rfl, marks⟩ := spelled
    refine ⟨flags, known, List.splitOn_intercalate ',' ?_ (by simpa using nonempty), marks⟩
    intro piece member
    obtain ⟨flag, chosen, rfl⟩ := List.mem_map.mp member
    rcases known flag chosen with rfl | rfl <;> decide

end Flags

section Fields

variable {token duration second third : List Char}

/-- The text that a field adds to an event. -/
def fieldText (field? : Option (List Char)) : List Char :=
  field?.elim [] fun field => '/' :: field

/-- The text that some fields come from. -/
def EventFields.text (fields : EventFields) : List Char :=
  fields.duration ++ (fieldText fields.pitch? ++ fieldText fields.flags?)

/-- No character is lost when an event is cut into fields. -/
theorem EventFields.text_of_read {fields : EventFields}
    (read : EventFields.read token = .ok fields) : token = fields.text := by
  have joined : ['/'].intercalate (token.splitOn '/') = token := List.intercalate_splitOn '/'
  unfold EventFields.read at read
  split at read
  case h_1 cut =>
    cases read
    rw [← joined, cut]
    simp [EventFields.text, fieldText]
  case h_2 cut =>
    split at read
    all_goals
      cases read
      rw [← joined, cut]
      simp [EventFields.text, fieldText, List.intercalate]
  case h_3 cut =>
    split at read
    case isTrue =>
      cases read
      rw [← joined, cut]
      simp [EventFields.text, fieldText, List.intercalate]
    case isFalse => cases read
  case h_4 => cases read

theorem EventFields.read_one (whole : '/' ∉ duration) :
    EventFields.read duration = .ok ⟨duration, none, none⟩ := by
  rw [EventFields.read, List.splitOn_eq_singleton whole]

theorem EventFields.read_two (first : '/' ∉ duration) (last : '/' ∉ second) :
    EventFields.read (duration ++ '/' :: second) =
      if looksLikePitch second then .ok ⟨duration, some second, none⟩
      else .ok ⟨duration, none, some second⟩ := by
  rw [EventFields.read, List.splitOn_append_cons_self_of_not_mem first,
    List.splitOn_eq_singleton last]

theorem EventFields.read_three (first : '/' ∉ duration) (middle : '/' ∉ second)
    (last : '/' ∉ third) (pitch : looksLikePitch second = true) :
    EventFields.read (duration ++ '/' :: (second ++ '/' :: third)) =
      .ok ⟨duration, some second, some third⟩ := by
  rw [EventFields.read, List.splitOn_append_cons_self_of_not_mem first,
    List.splitOn_append_cons_self_of_not_mem middle, List.splitOn_eq_singleton last]
  simp only [pitch, if_true]

/-- A pitch looks like one, since it ends in a digit. -/
theorem SpellsPitch.looksLikePitch {field : List Char} {pitch : Pitch}
    (named : SpellsPitch field pitch) : looksLikePitch field = true := by
  have digit : (Nat.digitChar pitch.octave.val).isDigit = true := by
    rw [Nat.isDigit_digitChar, decide_eq_true_eq]
    exact pitch.octave.isLt
  have last : field.getLast? = some (Nat.digitChar pitch.octave.val) := by
    rw [named, ← List.cons_append]
    exact List.getLast?_concat
  rw [Rhythm.looksLikePitch, last, Option.any_some, digit, Bool.or_true]

theorem SpellsPitch.not_isRestMark {field : List Char} {pitch : Pitch}
    (named : SpellsPitch field pitch) : isRestMark field = false := by
  rw [named]
  simp [isRestMark]

theorem isRestMark_iff {field : List Char} :
    isRestMark field = true ↔ ∃ mark, field = [mark] ∧ (mark = 'R' ∨ mark = 'r') := by
  simp only [isRestMark, Bool.or_eq_true, beq_iff_eq]
  constructor
  · intro same
    obtain rfl | rfl := same
    · exact ⟨'R', rfl, Or.inl rfl⟩
    · exact ⟨'r', rfl, Or.inr rfl⟩
  · intro marked
    obtain ⟨_, rfl, rfl | rfl⟩ := marked
    · exact Or.inl rfl
    · exact Or.inr rfl

/-- Flags do not look like a pitch, since they end in a letter of their own. -/
theorem SpellsFlags.not_looksLikePitch {field : List Char} {tied unbeamed : Bool}
    (marked : SpellsFlags field tied unbeamed) : Rhythm.looksLikePitch field = false := by
  rw [Rhythm.looksLikePitch, Bool.or_eq_false_iff]
  constructor
  · apply Bool.eq_false_iff.mpr
    intro rest
    obtain ⟨mark, rfl, letter⟩ := isRestMark_iff.mp rest
    have known := marked.mem_iff List.mem_cons_self
    rcases letter with rfl | rfl <;> revert known <;> decide
  · apply Bool.eq_false_iff.mpr
    intro digit
    obtain ⟨character, last, isDigit⟩ := (Option.any_eq_true _ _).mp digit
    rcases marked.mem_iff (List.mem_of_getLast? last) with rfl | rfl | rfl <;> cases isDigit

end Fields

section Notes

variable {token : List Char} {pitch?  flags? : Option (List Char)} {pitch : Pitch}
  {tied unbeamed : Bool} {beats : Float}

/-- A pitch that is left out is a middle C. -/
def SpellsPitchField (field? : Option (List Char)) (pitch : Pitch) : Prop :=
  field?.elim (pitch = .middleC) fun field => SpellsPitch field pitch

/-- Flags that are left out are not set. -/
def SpellsFlagsField (field? : Option (List Char)) (tied unbeamed : Bool) : Prop :=
  field?.elim (tied = false ∧ unbeamed = false) fun field => SpellsFlags field tied unbeamed

/-- The pitch, the flags and the duration of a note are read in this order. -/
theorem Note.read_eq (token : List Char) (fields : EventFields) (beats : Float) :
    Note.read token fields beats =
      fields.pitch?.elim (.ok .middleC) (Pitch.read token) >>= fun pitch =>
        fields.flags?.elim (.ok (false, false))
          (fun field => readFlags token (field.splitOn ',')) >>= fun flags =>
            built (Duration.of beats) >>= fun duration =>
              pure ⟨duration, pitch, flags.1, flags.2⟩ := by
  rcases fields with ⟨duration, _ | field, _ | flags⟩ <;> rfl

/-- A pitch field is read exactly when it spells the pitch or is left out. -/
theorem readPitchField_eq_ok_iff :
    pitch?.elim (.ok .middleC) (Pitch.read token) = .ok pitch ↔ SpellsPitchField pitch? pitch := by
  cases pitch? with
  | none =>
      simp only [SpellsPitchField, Option.elim_none, Except.ok.injEq]
      exact eq_comm
  | some field => exact Pitch.read_eq_ok_iff

/-- A flags field is read exactly when it spells the flags or is left out. -/
theorem readFlagsField_eq_ok_iff :
    flags?.elim (.ok (false, false)) (fun field => readFlags token (field.splitOn ',')) =
      .ok (tied, unbeamed) ↔ SpellsFlagsField flags? tied unbeamed := by
  cases flags? with
  | none =>
      simp only [SpellsFlagsField, Option.elim_none, Except.ok.injEq, Prod.mk.injEq]
      exact and_congr eq_comm eq_comm
  | some field => exact readFlags_splitOn_eq_ok_iff

/-- The fields of a note spell it, whichever of them are left out. -/
theorem spellsEvent_of_fields {duration : List Char}
    (number : Decimal.readFloat? duration = some beats) (named : SpellsPitchField pitch? pitch)
    (marked : SpellsFlagsField flags? tied unbeamed) :
    SpellsEvent (EventFields.text ⟨duration, pitch?, flags?⟩)
      (.note beats pitch tied unbeamed) := by
  cases pitch? with
  | none =>
      cases named
      cases flags? with
      | none =>
          obtain ⟨rfl, rfl⟩ := marked
          simpa [EventFields.text, fieldText] using SpellsEvent.bare number
      | some flags => simpa [EventFields.text, fieldText] using SpellsEvent.flagged number marked
  | some field =>
      cases flags? with
      | none =>
          obtain ⟨rfl, rfl⟩ := marked
          simpa [EventFields.text, fieldText] using SpellsEvent.pitched number named
      | some flags => simpa [EventFields.text, fieldText] using SpellsEvent.full number named marked

end Notes

section Events

variable {token : List Char}

/-- An event that is read is spelled by its token. -/
theorem Event.spells_of_read {event : Event} (read : Event.read token = .ok event) :
    SpellsEvent token event.draft := by
  obtain ⟨⟨duration, pitch?, flags?⟩, cut, inside⟩ := bind_eq_ok_iff.mp read
  obtain ⟨beats, number, later⟩ := bind_eq_ok_iff.mp inside
  clear read inside
  rw [expect_eq_ok_iff] at number
  rw [EventFields.text_of_read cut]
  dsimp only at later
  split at later
  case isTrue rest =>
    obtain ⟨field, rfl, marked⟩ := (Option.any_eq_true _ _).mp rest
    obtain ⟨mark, rfl, letter⟩ := isRestMark_iff.mp marked
    split at later
    case isTrue => cases later
    case isFalse absent =>
      obtain ⟨held, lasts, equation⟩ := bind_eq_ok_iff.mp later
      cases equation
      have same := Duration.of_eq_ok_iff.mp (mapError_eq_ok_iff.mp lasts)
      rw [← same] at number
      have none : flags? = none := by simpa using absent
      subst none
      have spelled := SpellsEvent.rest number letter
      simpa [EventFields.text, fieldText, Event.draft, Rest.beats] using spelled
  case isFalse =>
    obtain ⟨note, parts, equation⟩ := bind_eq_ok_iff.mp later
    cases equation
    rw [Note.read_eq] at parts
    obtain ⟨pitch, named, parts⟩ := bind_eq_ok_iff.mp parts
    obtain ⟨⟨tied, unbeamed⟩, marked, parts⟩ := bind_eq_ok_iff.mp parts
    obtain ⟨held, lasts, equation⟩ := bind_eq_ok_iff.mp parts
    cases equation
    rw [readPitchField_eq_ok_iff] at named
    rw [readFlagsField_eq_ok_iff] at marked
    have same := Duration.of_eq_ok_iff.mp (mapError_eq_ok_iff.mp lasts)
    rw [← same] at number
    exact spellsEvent_of_fields number named marked

/-- A note is read from fields that name its parts and no rest. -/
theorem Event.read_note {fields : EventFields} {beats : Float} {pitch : Pitch}
    {tied unbeamed : Bool} (cut : EventFields.read token = .ok fields)
    (number : Decimal.readFloat? fields.duration = some beats)
    (sounding : fields.pitch?.any isRestMark = false)
    (named : SpellsPitchField fields.pitch? pitch)
    (marked : SpellsFlagsField fields.flags? tied unbeamed) :
    Event.read token = built (EventDraft.note beats pitch tied unbeamed).build := by
  rw [Event.read, bind_of_eq_ok cut, bind_of_eq_ok (expect_eq_ok_iff.mpr number),
    if_neg (by simp [sounding]), Note.read_eq,
    bind_of_eq_ok (readPitchField_eq_ok_iff.mpr named),
    bind_of_eq_ok (readFlagsField_eq_ok_iff.mpr marked)]
  rw [EventDraft.build]
  cases Duration.of beats <;> rfl

/-- A text that spells an event is read as this event, and only its duration is left to check. -/
theorem Event.read_of_spells {draft : EventDraft} (spelled : SpellsEvent token draft) :
    Event.read token = built draft.build := by
  have whole {duration : List Char} {beats : Float}
      (number : Decimal.readFloat? duration = some beats) : '/' ∉ duration := by
    intro member
    cases Decimal.isNumeric_of_readFloat? number '/' member
  cases spelled with
  | bare number =>
      exact Event.read_note (EventFields.read_one (whole number)) number rfl rfl ⟨rfl, rfl⟩
  | @rest duration beats mark number letter =>
      have marked : isRestMark [mark] = true := isRestMark_iff.mpr ⟨mark, rfl, letter⟩
      have last : '/' ∉ [mark] := by
        rcases letter with rfl | rfl <;> decide
      have cut := EventFields.read_two (whole number) last
      rw [if_pos (by rw [Rhythm.looksLikePitch, marked, Bool.true_or])] at cut
      have silent : (some [mark]).any isRestMark = true := marked
      rw [Event.read, bind_of_eq_ok cut, bind_of_eq_ok (expect_eq_ok_iff.mpr number),
        if_pos silent, EventDraft.build]
      cases Duration.of beats <;> rfl
  | @pitched duration field beats pitch number named =>
      have last : '/' ∉ field := fun member => by cases named.isFieldCharacter member
      have cut := EventFields.read_two (whole number) last
      rw [if_pos named.looksLikePitch] at cut
      exact Event.read_note cut number named.not_isRestMark named ⟨rfl, rfl⟩
  | @flagged duration field beats tied unbeamed number marked =>
      have last : '/' ∉ field := fun member => by cases marked.isFieldCharacter member
      have cut := EventFields.read_two (whole number) last
      rw [marked.not_looksLikePitch, if_neg Bool.false_ne_true] at cut
      exact Event.read_note cut number rfl rfl marked
  | @full duration field flags beats pitch tied unbeamed number named marked =>
      have middle : '/' ∉ field := fun member => by cases named.isFieldCharacter member
      have last : '/' ∉ flags := fun member => by cases marked.isFieldCharacter member
      exact Event.read_note
        (EventFields.read_three (whole number) middle last named.looksLikePitch) number
        named.not_isRestMark named marked

end Events

end Rhythm
