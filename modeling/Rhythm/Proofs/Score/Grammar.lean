import Rhythm.Proofs.Decimal.Literal
import Rhythm.Proofs.Score.Draft
import Rhythm.Proofs.Text.Line

/-
This file says which texts spell which drafts, without any reading. One relation stands for each
part of a line.
-/

namespace Rhythm

open Outcome Text

/-- A numeral is spelled in at least one decimal digit. -/
structure SpellsNumeral (text : List Char) (number : UInt32) : Prop where
  nonempty : text ≠ []
  digits : ∀ character ∈ text, character.isDigit = true
  value : Nat.ofDigitChars 10 text 0 = number.toNat

/-- A word is a numeral with one plus sign before it or none. -/
def SpellsWord (text : List Char) (number : UInt32) : Prop :=
  SpellsNumeral text number ∨ ∃ digits, text = '+' :: digits ∧ SpellsNumeral digits number

/-- A pitch is spelled by its letter, the code of its accidental if there is one, and one digit. -/
def SpellsPitch (text : List Char) (pitch : Pitch) : Prop :=
  text = pitch.letter.toChar ::
    (pitch.accidental.code?.toList ++ [Nat.digitChar pitch.octave.val])

/-- Flags are spelled by one or more letters `T` and `U` with commas between them. -/
def SpellsFlags (text : List Char) (tied unbeamed : Bool) : Prop :=
  ∃ flags : List Char, flags ≠ [] ∧ (∀ flag ∈ flags, flag = 'T' ∨ flag = 'U') ∧
    text = [','].intercalate (flags.map fun flag => [flag]) ∧
      tied = decide ('T' ∈ flags) ∧ unbeamed = decide ('U' ∈ flags)

/-- An event is spelled by a duration, a pitch that may be left out and flags that may be left out.
The letter `R` stands in place of the pitch of a rest. -/
inductive SpellsEvent : List Char → EventDraft → Prop where
  | bare {duration : List Char} {beats : Float}
      (number : Decimal.readFloat? duration = some beats) :
      SpellsEvent duration (.note beats .middleC false false)
  | rest {duration : List Char} {beats : Float} {mark : Char}
      (number : Decimal.readFloat? duration = some beats) (marked : mark = 'R' ∨ mark = 'r') :
      SpellsEvent (duration ++ ['/', mark]) (.rest beats)
  | pitched {duration field : List Char} {beats : Float} {pitch : Pitch}
      (number : Decimal.readFloat? duration = some beats) (named : SpellsPitch field pitch) :
      SpellsEvent (duration ++ '/' :: field) (.note beats pitch false false)
  | flagged {duration field : List Char} {beats : Float} {tied unbeamed : Bool}
      (number : Decimal.readFloat? duration = some beats)
      (marked : SpellsFlags field tied unbeamed) :
      SpellsEvent (duration ++ '/' :: field) (.note beats .middleC tied unbeamed)
  | full {duration field flags : List Char} {beats : Float} {pitch : Pitch} {tied unbeamed : Bool}
      (number : Decimal.readFloat? duration = some beats) (named : SpellsPitch field pitch)
      (marked : SpellsFlags flags tied unbeamed) :
      SpellsEvent (duration ++ '/' :: (field ++ '/' :: flags)) (.note beats pitch tied unbeamed)

/-- A slot of a tuplet spells an event without any hyphen. -/
def SpellsSlot (text : List Char) (event : EventDraft) : Prop :=
  '-' ∉ text ∧ SpellsEvent text event

/-- An element is an event, or a tuplet with its divisions and with hyphens between its slots. -/
inductive SpellsElement : List Char → ElementDraft → Prop where
  | single {text : List Char} {event : EventDraft} (spelled : SpellsEvent text event) :
      SpellsElement text (.single event)
  | group {number : List Char} {slots : List (List Char)} {divisions : UInt32}
      {events : List EventDraft} (word : SpellsWord number divisions) (nonempty : slots ≠ [])
      (spelled : List.Forall₂ SpellsSlot slots events) :
      SpellsElement (number ++ '=' :: '(' :: (['-'].intercalate slots ++ [')']))
        (.group divisions events)

/-- A measure starts with a fraction and, if it has its own groups, with these in parentheses. -/
inductive SpellsIntro : List Char → Meter → Option (List UInt32) → Prop where
  | plain {count unit : List Char} {meter : Meter} (upper : SpellsWord count meter.count)
      (lower : SpellsWord unit meter.unit) :
      SpellsIntro (count ++ '/' :: unit) meter none
  | grouped {count unit : List Char} {meter : Meter} {texts : List (List Char)}
      {groups : List UInt32} (upper : SpellsWord count meter.count)
      (lower : SpellsWord unit meter.unit) (nonempty : texts ≠ [])
      (spelled : List.Forall₂ SpellsNumeral texts groups) :
      SpellsIntro (count ++ '/' :: (unit ++ '(' :: (['+'].intercalate texts ++ [')']))) meter
        (some groups)

/-- A line spells a measure when its first colon stands after the meter, and one or more elements
follow with blanks between them. Blanks before the colon do not count. -/
def Spells (line : List Char) (draft : MeasureDraft) : Prop :=
  ∃ intro contents, line = intro ++ ':' :: contents ∧ ':' ∉ intro ∧
    SpellsIntro (squeeze intro) draft.meter draft.grouping? ∧ words contents ≠ [] ∧
      List.Forall₂ SpellsElement (words contents) draft.elements

/-- Pitches and flags are spelled in letters, digits and a few other characters. -/
def isFieldCharacter (character : Char) : Bool :=
  character.isAlphanum || character ∈ ['#', '*', ',']

/-- Events are spelled in the characters of written numbers, pitches and flags, and slashes. -/
def isEventCharacter (character : Char) : Bool :=
  Decimal.isNumeric character || isFieldCharacter character || character == '/'

section Characters

variable {text : List Char} {character : Char}

theorem isEventCharacter_of_isNumeric (numeric : Decimal.isNumeric character = true) :
    isEventCharacter character = true := by
  simp [isEventCharacter, numeric]

theorem isEventCharacter_of_isFieldCharacter (field : isFieldCharacter character = true) :
    isEventCharacter character = true := by
  simp [isEventCharacter, field]

theorem SpellsNumeral.not_mem {number : UInt32} (numeral : SpellsNumeral text number)
    (other : character.isDigit = false) : character ∉ text := by
  intro member
  rw [numeral.digits character member] at other
  cases other

/-- Words hold digits and plus signs. -/
theorem SpellsWord.characters {number : UInt32} (word : SpellsWord text number)
    (member : character ∈ text) : character.isDigit = true ∨ character = '+' := by
  obtain numeral | ⟨digits, rfl, numeral⟩ := word
  · exact Or.inl (numeral.digits character member)
  · obtain plus | inDigits := List.mem_cons.mp member
    · exact Or.inr plus
    · exact Or.inl (numeral.digits character inDigits)

theorem SpellsWord.not_mem {number : UInt32} (word : SpellsWord text number)
    (other : character.isDigit = false) (plus : character ≠ '+') : character ∉ text := by
  intro member
  obtain digit | same := word.characters member
  · rw [digit] at other
    cases other
  · exact plus same

/-- Pitches hold field characters only. -/
theorem SpellsPitch.isFieldCharacter {pitch : Pitch} (named : SpellsPitch text pitch)
    (member : character ∈ text) : isFieldCharacter character = true := by
  have letters (letter : Letter) : Rhythm.isFieldCharacter letter.toChar = true := by
    cases letter <;> rfl
  have digits : ∀ octave : Fin 10, Rhythm.isFieldCharacter (Nat.digitChar octave.val) = true := by
    decide
  have codes (accidental : Accidental) :
      accidental.code?.toList.all Rhythm.isFieldCharacter = true := by
    cases accidental <;> rfl
  rw [named, List.mem_cons, List.mem_append, List.mem_singleton] at member
  obtain rfl | coded | rfl := member
  · exact letters pitch.letter
  · exact List.all_eq_true.mp (codes pitch.accidental) character coded
  · exact digits pitch.octave

/-- Flags hold commas and the two letters. -/
theorem SpellsFlags.mem_iff {tied unbeamed : Bool} (marked : SpellsFlags text tied unbeamed)
    (member : character ∈ text) : character = ',' ∨ character = 'T' ∨ character = 'U' := by
  obtain ⟨flags, -, known, rfl, -, -⟩ := marked
  obtain comma | ⟨piece, inFlags, inPiece⟩ := mem_intercalate member
  · exact Or.inl comma
  · obtain ⟨flag, chosen, rfl⟩ := List.mem_map.mp inFlags
    rw [List.mem_singleton.mp inPiece]
    exact Or.inr (known flag chosen)

theorem SpellsFlags.isFieldCharacter {tied unbeamed : Bool}
    (marked : SpellsFlags text tied unbeamed) (member : character ∈ text) :
    isFieldCharacter character = true := by
  rcases marked.mem_iff member with rfl | rfl | rfl <;> rfl

/-- Events hold event characters only. -/
theorem SpellsEvent.isEventCharacter {event : EventDraft} (spelled : SpellsEvent text event)
    (member : character ∈ text) : isEventCharacter character = true := by
  have numeric {duration : List Char} {beats : Float}
      (number : Decimal.readFloat? duration = some beats) (inside : character ∈ duration) :
      Rhythm.isEventCharacter character = true :=
    isEventCharacter_of_isNumeric (Decimal.isNumeric_of_readFloat? number character inside)
  cases spelled with
  | bare number => exact numeric number member
  | rest number marked =>
      obtain inDuration | rfl | inMark := mem_append_cons member
      · exact numeric number inDuration
      · rfl
      · rw [List.mem_singleton.mp inMark]
        rcases marked with rfl | rfl <;> rfl
  | pitched number named =>
      obtain inDuration | rfl | inField := mem_append_cons member
      · exact numeric number inDuration
      · rfl
      · exact isEventCharacter_of_isFieldCharacter (named.isFieldCharacter inField)
  | flagged number marked =>
      obtain inDuration | rfl | inField := mem_append_cons member
      · exact numeric number inDuration
      · rfl
      · exact isEventCharacter_of_isFieldCharacter (marked.isFieldCharacter inField)
  | full number named marked =>
      obtain inDuration | rfl | later := mem_append_cons member
      · exact numeric number inDuration
      · rfl
      · obtain inField | rfl | inFlags := mem_append_cons later
        · exact isEventCharacter_of_isFieldCharacter (named.isFieldCharacter inField)
        · rfl
        · exact isEventCharacter_of_isFieldCharacter (marked.isFieldCharacter inFlags)

/-- Events hold no other characters. -/
theorem SpellsEvent.not_mem {event : EventDraft} (spelled : SpellsEvent text event)
    (other : Rhythm.isEventCharacter character = false) : character ∉ text := by
  intro member
  rw [spelled.isEventCharacter member] at other
  cases other

/-- Intros hold digits and four marks. -/
theorem SpellsIntro.characters {meter : Meter} {grouping? : Option (List UInt32)}
    (spelled : SpellsIntro text meter grouping?) (member : character ∈ text) :
    character.isDigit = true ∨ character ∈ ['+', '/', '(', ')'] := by
  have word {text : List Char} {number : UInt32} (own : SpellsWord text number)
      (inside : character ∈ text) :
      character.isDigit = true ∨ character ∈ ['+', '/', '(', ')'] := by
    obtain digit | rfl := own.characters inside
    · exact Or.inl digit
    · exact Or.inr (by decide)
  cases spelled with
  | plain upper lower =>
      obtain inCount | rfl | inUnit := mem_append_cons member
      · exact word upper inCount
      · exact Or.inr (by decide)
      · exact word lower inUnit
  | @grouped count unit meter texts groups upper lower nonempty own =>
      obtain inCount | rfl | later := mem_append_cons member
      · exact word upper inCount
      · exact Or.inr (by decide)
      · obtain inUnit | rfl | later := mem_append_cons later
        · exact word lower inUnit
        · exact Or.inr (by decide)
        · obtain inGroups | rfl | none := mem_append_cons later
          · obtain rfl | ⟨piece, chosen, inside⟩ := mem_intercalate inGroups
            · exact Or.inr (by decide)
            · obtain ⟨group, numeral⟩ := exists_of_mem_left own chosen
              exact Or.inl (numeral.digits character inside)
          · exact Or.inr (by decide)
          · cases none

end Characters

section Solid

variable {text : List Char} {character : Char}

/-- The characters of events are not blank. -/
theorem isBlank_of_isEventCharacter (known : isEventCharacter character = true) :
    isBlank character = false := by
  have numeric (own : Decimal.isNumeric character = true) : isBlank character = false := by
    obtain ⟨above, below⟩ := Decimal.between_of_isNumeric own
    exact isBlank_of_between above below
  obtain known | slash := Bool.or_eq_true_iff.mp known
  · obtain own | field := Bool.or_eq_true_iff.mp known
    · exact numeric own
    · obtain alphanumeric | other := Bool.or_eq_true_iff.mp field
      · exact numeric (by simp [Decimal.isNumeric, alphanumeric])
      · have marks : (['#', '*', ','].all fun mark => !isBlank mark) = true := rfl
        simpa using List.all_eq_true.mp marks character (of_decide_eq_true other)
  · rw [beq_iff_eq.mp slash]
    rfl

/-- The characters of a spelled intro are not blank. -/
theorem SpellsIntro.solid {meter : Meter} {grouping? : Option (List UInt32)}
    (spelled : SpellsIntro text meter grouping?) (member : character ∈ text) :
    isBlank character = false := by
  obtain digit | other := spelled.characters member
  · exact isBlank_of_isDigit digit
  · have marks : (['+', '/', '(', ')'].all fun mark => !isBlank mark) = true := rfl
    simpa using List.all_eq_true.mp marks character other

/-- The characters of a spelled element are not blank. -/
theorem SpellsElement.solid {element : ElementDraft} (spelled : SpellsElement text element)
    (member : character ∈ text) : isBlank character = false := by
  cases spelled with
  | single own => exact isBlank_of_isEventCharacter (own.isEventCharacter member)
  | @group number slots divisions events word nonempty own =>
      obtain inNumber | rfl | later := mem_append_cons member
      · obtain digit | rfl := word.characters inNumber
        · exact isBlank_of_isDigit digit
        · rfl
      · rfl
      · obtain rfl | later := List.mem_cons.mp later
        · rfl
        · obtain inSlots | rfl | none := mem_append_cons later
          · obtain rfl | ⟨slot, chosen, inside⟩ := mem_intercalate inSlots
            · rfl
            · obtain ⟨event, slotSpelled⟩ := exists_of_mem_left own chosen
              exact isBlank_of_isEventCharacter (slotSpelled.2.isEventCharacter inside)
          · rfl
          · cases none

/-- No event is spelled by an empty text. -/
theorem SpellsEvent.ne_nil {text : List Char} {event : EventDraft}
    (spelled : SpellsEvent text event) : text ≠ [] := by
  cases spelled with
  | bare number =>
      rintro rfl
      cases number
  | rest => simp
  | pitched => simp
  | flagged => simp
  | full => simp

theorem SpellsElement.ne_nil {element : ElementDraft} (spelled : SpellsElement text element) :
    text ≠ [] := by
  cases spelled with
  | single own => exact own.ne_nil
  | group => simp

end Solid

end Rhythm
