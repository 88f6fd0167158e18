import Rhythm.Decimal.Literal
import Rhythm.Proofs.Text.Numeral
import Mathlib

/-
This file lists the characters of a written binary64 number. The main statement is
`isNumeric_of_readFloat?`.
-/

namespace Rhythm.Decimal

open Rhythm.Text

/-- Written numbers consist of letters, digits, signs and points. -/
def isNumeric (character : Char) : Bool :=
  character.isAlphanum || character ∈ ['+', '-', '.']

theorem isNumeric_of_isDigit {character : Char} (digit : character.isDigit = true) :
    isNumeric character = true := by
  simp [isNumeric, Char.isAlphanum, digit]

/-- The characters of written numbers lie between the space and the second controls. -/
theorem between_of_isNumeric {character : Char} (numeric : isNumeric character = true) :
    0x20 < character.toNat ∧ character.toNat < 0x85 := by
  obtain alphanumeric | other := Bool.or_eq_true_iff.mp numeric
  · simp only [Char.isAlphanum, Char.isAlpha, Char.isUpper, Char.isLower, Char.isDigit,
      Bool.or_eq_true, Bool.and_eq_true, decide_eq_true_eq, ge_iff_le,
      UInt32.le_iff_toNat_le] at alphanumeric
    change ((65 ≤ character.toNat ∧ character.toNat ≤ 90) ∨
      (97 ≤ character.toNat ∧ character.toNat ≤ 122)) ∨
        (48 ≤ character.toNat ∧ character.toNat ≤ 57) at alphanumeric
    omega
  · have signs : (['+', '-', '.'].all fun sign => 0x20 < sign.toNat && sign.toNat < 0x85) = true :=
      rfl
    simpa using List.all_eq_true.mp signs character (of_decide_eq_true other)

/-- A capital letter is a letter. -/
theorem isAlpha_of_toLower {character : Char} (small : character.toLower.isAlpha = true) :
    character.isAlpha = true := by
  unfold Char.toLower at small
  split at small
  case isTrue capital =>
    have upper : character.isUpper = true :=
      decide_eq_true ⟨capital.1, capital.2⟩
    rw [Char.isAlpha, upper, Bool.true_or]
  case isFalse => exact small

/-- The letters of a word may be capital or small. -/
theorem isNumeric_of_map_toLower {text word : List Char} (spelled : text.map Char.toLower = word)
    (letters : word.all Char.isAlpha = true) :
    ∀ character ∈ text, isNumeric character = true := by
  intro character member
  have inWord : character.toLower ∈ word := spelled ▸ List.mem_map_of_mem member
  have letter := isAlpha_of_toLower (List.all_eq_true.mp letters _ inWord)
  simp [isNumeric, Char.isAlphanum, letter]

/-- A span cuts a text into two parts. -/
theorem span_eq {test : Char → Bool} {text before after : List Char}
    (cut : text.span test = (before, after)) :
    text = before ++ after ∧ ∀ character ∈ before, test character = true := by
  rw [List.span_eq_takeWhile_dropWhile, Prod.mk.injEq] at cut
  obtain ⟨rfl, rfl⟩ := cut
  exact ⟨List.takeWhile_append_dropWhile.symm, fun _ => List.mem_takeWhile_imp⟩

/-- At most one sign is cut off. -/
theorem cutSign_eq (text : List Char) :
    text = (cutSign text).2 ∨ text = '-' :: (cutSign text).2 ∨ text = '+' :: (cutSign text).2 := by
  unfold cutSign
  split
  case h_1 => exact Or.inr (Or.inl rfl)
  case h_2 => exact Or.inr (Or.inr rfl)
  case h_3 => exact Or.inl rfl

/-- A sign may be added to a written number. -/
theorem isNumeric_of_cutSign {text : List Char}
    (all : ∀ character ∈ (cutSign text).2, isNumeric character = true) :
    ∀ character ∈ text, isNumeric character = true := by
  intro character member
  obtain same | minus | plus := cutSign_eq text
  · exact all character (same ▸ member)
  · rw [minus] at member
    obtain rfl | inRest := List.mem_cons.mp member
    · rfl
    · exact all character inRest
  · rw [plus] at member
    obtain rfl | inRest := List.mem_cons.mp member
    · rfl
    · exact all character inRest

/-- The letter that stands before a power of ten. -/
def PowerLetter (character : Char) : Prop :=
  character = 'e' ∨ character = 'E'

/-- After its letter and its sign a power of ten has digits only. -/
theorem isDigit_of_readPower? {letter : Char} {rest : List Char} {power : Int}
    (read : readPower? (letter :: rest) = some power) :
    PowerLetter letter ∧ ∀ character ∈ (cutSign rest).2, character.isDigit = true := by
  simp only [readPower?] at read
  split at read
  case isTrue exponent =>
    obtain ⟨number, lifted, _⟩ := Option.map_eq_some_iff.mp read
    obtain ⟨natural, digits, _⟩ := Option.bind_eq_some_iff.mp lifted
    exact ⟨exponent, (Numeral.read?_eq_some_iff.mp digits).2.1⟩
  case isFalse => cases read

/-- A power that is read is written in the characters of numbers. -/
theorem isNumeric_of_readPower? {text : List Char} {power : Int}
    (read : readPower? text = some power) :
    ∀ character ∈ text, isNumeric character = true := by
  match text with
  | [] => simp
  | letter :: rest =>
      obtain ⟨known, digits⟩ := isDigit_of_readPower? read
      have numeric : ∀ character ∈ rest, isNumeric character = true :=
        isNumeric_of_cutSign fun _ member => isNumeric_of_isDigit (digits _ member)
      intro character member
      obtain rfl | inRest := List.mem_cons.mp member
      · rcases known with rfl | rfl <;> rfl
      · exact numeric character inRest

/-- At most one point is cut off. -/
theorem cutFraction_eq (text : List Char) :
    text = (cutFraction text).1 ++ (cutFraction text).2 ∨
      text = '.' :: ((cutFraction text).1 ++ (cutFraction text).2) := by
  unfold cutFraction
  split
  case h_1 rest => exact Or.inr (congrArg _ (span_eq rfl).1)
  case h_2 => exact Or.inl rfl

/-- A decimal number that is read is written in the characters of numbers. -/
theorem isNumeric_of_read? {text : List Char} {decimal : Decimal}
    (read : read? text = some decimal) :
    ∀ character ∈ text, isNumeric character = true := by
  unfold read? at read
  generalize cut : text.span Char.isDigit = pieces at read
  obtain ⟨whole, rest⟩ := pieces
  dsimp only at read
  split at read
  case h_1 coefficient exponent digits power =>
    have numeric : ∀ character ∈ whole ++ (cutFraction rest).1, isNumeric character = true :=
      fun _ member => isNumeric_of_isDigit ((Numeral.read?_eq_some_iff.mp digits).2.1 _ member)
    have tail : ∀ character ∈ (cutFraction rest).1 ++ (cutFraction rest).2,
        isNumeric character = true := by
      intro character member
      obtain inFraction | inPower := List.mem_append.mp member
      · exact numeric character (List.mem_append_right _ inFraction)
      · exact isNumeric_of_readPower? power character inPower
    intro character member
    rw [(span_eq cut).1] at member
    obtain inWhole | inRest := List.mem_append.mp member
    · exact numeric character (List.mem_append_left _ inWhole)
    · obtain same | point := cutFraction_eq rest
      · exact tail character (same ▸ inRest)
      · rw [point] at inRest
        obtain rfl | inTail := List.mem_cons.mp inRest
        · rfl
        · exact tail character inTail
  case h_2 => cases read

/-- A number that is read without its sign is written in the characters of numbers. -/
theorem isNumeric_of_readSize? {text : List Char} {size : Float}
    (read : readSize? text = some size) :
    ∀ character ∈ text, isNumeric character = true := by
  unfold readSize? at read
  split at read
  case isTrue infinite =>
    obtain short | long := Bool.or_eq_true_iff.mp infinite
    · exact isNumeric_of_map_toLower (beq_iff_eq.mp short) rfl
    · exact isNumeric_of_map_toLower (beq_iff_eq.mp long) rfl
  case isFalse =>
    split at read
    case isTrue undefined =>
      exact isNumeric_of_map_toLower (beq_iff_eq.mp undefined) rfl
    case isFalse =>
      obtain ⟨decimal, digits, _⟩ := Option.map_eq_some_iff.mp read
      exact isNumeric_of_read? digits

/-- A text that reads as a binary64 number has only the characters of written numbers. -/
theorem isNumeric_of_readFloat? {text : List Char} {number : Float}
    (read : readFloat? text = some number) :
    ∀ character ∈ text, isNumeric character = true := by
  obtain ⟨size, sized, _⟩ := Option.map_eq_some_iff.mp read
  exact isNumeric_of_cutSign (isNumeric_of_readSize? sized)

end Rhythm.Decimal
