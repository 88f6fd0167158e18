import Rhythm.Proofs.Binary.Grounded
import Rhythm.Proofs.Decimal.Exact
import Rhythm.Proofs.Decimal.Literal

/-
This file says where the hyphens of a written number stand. The main statement is `hyphen_of_lasts`,
that the first hyphen of a positive finite number stands right after the letter of its power of
ten, and that the text before the hyphen is no number.
-/

namespace Rhythm.Decimal

open Rhythm.Text Rhythm.Binary Float.Model Float.Model.UnpackedFloat

/-- These characters stand neither among digits and points nor in the words for numbers. -/
structure Foreign (character : Char) : Prop where
  digit : character.isDigit = false
  point : character ≠ '.'
  letter : ∀ word ∈ ["inf", "infinity", "nan"], character.toLower ∉ word.toList

section Cut

variable {front back text : List Char} {character : Char}

theorem foreign_hyphen : Foreign '-' :=
  ⟨by decide, by decide, by decide⟩

theorem foreign_of_powerLetter (letter : PowerLetter character) : Foreign character := by
  obtain rfl | rfl := letter
  · exact ⟨by decide, by decide, by decide⟩
  · exact ⟨by decide, by decide, by decide⟩

/-- A span ends before the first character that fails its test. -/
theorem span_append_cons {test : Char → Bool} (fails : test character = false) :
    (front ++ character :: back).span test =
      (front.takeWhile test, front.dropWhile test ++ character :: back) := by
  rw [List.span_eq_takeWhile_dropWhile]
  induction front with
  | nil => simp [fails]
  | cons first rest inductionHypothesis =>
      cases passes : test first with
      | false => simp [passes]
      | true => simpa [passes] using inductionHypothesis

/-- A sign that is cut off leaves the rest of the text as it is. -/
theorem cutSign_append_cons (inner : front ≠ [] ∨ character ≠ '-' ∧ character ≠ '+') :
    ∃ head tail, front = head ++ tail ∧
      (cutSign (front ++ character :: back)).2 = tail ++ character :: back := by
  cases front with
  | nil =>
      obtain ⟨minus, plus⟩ := inner.resolve_left (· rfl)
      refine ⟨[], [], rfl, ?_⟩
      unfold cutSign
      split
      case h_1 same => exact absurd (List.cons.inj same).1 minus
      case h_2 same => exact absurd (List.cons.inj same).1 plus
      case h_3 => rfl
  | cons first rest =>
      unfold cutSign
      split
      case h_1 same =>
        obtain ⟨rfl, rfl⟩ := List.cons.inj same
        exact ⟨['-'], rest, rfl, rfl⟩
      case h_2 same =>
        obtain ⟨rfl, rfl⟩ := List.cons.inj same
        exact ⟨['+'], rest, rfl, rfl⟩
      case h_3 => exact ⟨[], first :: rest, rfl, rfl⟩

/-- The digits of a fraction end before a foreign character. -/
theorem cutFraction_append_cons (foreign : Foreign character) :
    ∃ head tail, front = head ++ tail ∧
      (cutFraction (front ++ character :: back)).2 = tail ++ character :: back := by
  cases front with
  | nil =>
      refine ⟨[], [], rfl, ?_⟩
      unfold cutFraction
      split
      case h_1 same => exact absurd (List.cons.inj same).1 foreign.point
      case h_2 => rfl
  | cons first rest =>
      unfold cutFraction
      split
      case h_1 same =>
        obtain ⟨rfl, rfl⟩ := List.cons.inj same
        refine ⟨'.' :: rest.takeWhile Char.isDigit, rest.dropWhile Char.isDigit, ?_, ?_⟩
        · rw [List.cons_append, List.takeWhile_append_dropWhile]
        · exact congrArg Prod.snd (@span_append_cons rest back character _ foreign.digit)
      case h_2 => exact ⟨[], first :: rest, rfl, rfl⟩

/-- A foreign character of a decimal number stands in its power of ten. -/
theorem exists_power_of_read? {decimal : Decimal} (foreign : Foreign character)
    (read : read? (front ++ character :: back) = some decimal) :
    ∃ head tail power, front = head ++ tail ∧
      readPower? (tail ++ character :: back) = some power := by
  unfold read? at read
  rw [span_append_cons foreign.digit] at read
  obtain ⟨head, tail, cut, same⟩ :=
    @cutFraction_append_cons (front.dropWhile Char.isDigit) back character foreign
  dsimp only at read
  rw [same] at read
  split at read
  case h_1 coefficient exponent digits power =>
    refine ⟨front.takeWhile Char.isDigit ++ head, tail, exponent, ?_, power⟩
    rw [List.append_assoc, ← cut, List.takeWhile_append_dropWhile]
  case h_2 => cases read

/-- A foreign character of a written number that is not its sign stands in its power of ten. -/
theorem exists_power_of_readFloat? {number : Float} (foreign : Foreign character)
    (inner : front ≠ [] ∨ character ≠ '-' ∧ character ≠ '+')
    (read : readFloat? (front ++ character :: back) = some number) :
    ∃ head tail power, front = head ++ tail ∧
      readPower? (tail ++ character :: back) = some power := by
  obtain ⟨size, sized, -⟩ := Option.map_eq_some_iff.mp read
  obtain ⟨sign, rest, rfl, same⟩ := @cutSign_append_cons front back character inner
  change readSize? (cutSign (sign ++ rest ++ character :: back)).2 = some size at sized
  rw [same] at sized
  have strange {word : String} (known : word ∈ ["inf", "infinity", "nan"]) :
      ((rest ++ character :: back).map Char.toLower == word.toList) = false := by
    apply beq_eq_false_iff_ne.mpr
    intro spelled
    refine foreign.letter word known ?_
    rw [← spelled]
    exact List.mem_map_of_mem (by simp)
  have finite : isInfinity (rest ++ character :: back) = false := by
    rw [isInfinity, strange (by simp), strange (by simp), Bool.or_false]
  have defined : isUndefined (rest ++ character :: back) = false := strange (by simp)
  rw [readSize?, finite, defined, if_neg Bool.false_ne_true, if_neg Bool.false_ne_true] at sized
  obtain ⟨decimal, digits, -⟩ := Option.map_eq_some_iff.mp sized
  obtain ⟨head, tail, power, rfl, found⟩ := exists_power_of_read? foreign digits
  exact ⟨sign ++ head, tail, power, (List.append_assoc _ _ _).symm, found⟩

end Cut

section Power

variable {front back tail : List Char} {character : Char} {power : Int}

/-- The first hyphen of a power of ten stands right after its letter. -/
theorem eq_letter_of_readPower? (fresh : '-' ∉ tail)
    (read : readPower? (tail ++ '-' :: back) = some power) :
    ∃ letter, tail = [letter] ∧ PowerLetter letter := by
  cases tail with
  | nil =>
      have letter := (isDigit_of_readPower? read).1
      exact absurd letter (by simp [PowerLetter])
  | cons letter rest =>
      rw [List.cons_append] at read
      obtain ⟨known, digits⟩ := isDigit_of_readPower? read
      cases rest with
      | nil => exact ⟨letter, rfl, known⟩
      | cons first others =>
          -- A hyphen further on would stand among the digits.
          obtain ⟨head, behind, -, same⟩ :=
            @cutSign_append_cons (first :: others) back '-' (.inl (List.cons_ne_nil _ _))
          have hyphen := digits '-' (by rw [same]; simp)
          cases hyphen

/-- No power of ten ends in its letter. -/
theorem readPower?_concat (letter : PowerLetter character) :
    readPower? (tail ++ [character]) = none := by
  have foreign := foreign_of_powerLetter letter
  cases read : readPower? (tail ++ [character]) with
  | none => rfl
  | some power =>
      cases tail with
      | nil =>
          obtain rfl | rfl := letter <;> cases read
      | cons first rest =>
          rw [List.cons_append] at read
          obtain ⟨-, digits⟩ := isDigit_of_readPower? read
          have signless : character ≠ '-' ∧ character ≠ '+' := by
            obtain rfl | rfl := letter <;> decide
          obtain ⟨head, behind, -, same⟩ := @cutSign_append_cons rest [] character (.inr signless)
          have digit := digits character (by rw [same]; simp)
          rw [foreign.digit] at digit
          cases digit

/-- No written number ends in the letter of a power of ten. -/
theorem readFloat?_concat (letter : PowerLetter character) :
    readFloat? (front ++ [character]) = none := by
  have signless : character ≠ '-' ∧ character ≠ '+' := by
    obtain rfl | rfl := letter <;> decide
  cases read : readFloat? (front ++ [character]) with
  | none => rfl
  | some number =>
      obtain ⟨head, tail, power, -, found⟩ :=
        exists_power_of_readFloat? (foreign_of_powerLetter letter) (.inr signless) read
      rw [readPower?_concat letter] at found
      cases found

end Power

section Sizes

variable {front back : List Char} {size beats : Float}

/-- The unpacked number of a coefficient and a power of ten has no minus sign. -/
theorem unpackedAmount_ofScientific (coefficient : Nat) (power : Int) :
    UnpackedAmount (UnpackedFloat.ofScientific Format.binary64 coefficient power) := by
  unfold UnpackedFloat.ofScientific
  split_ifs
  · exact ⟨nofun, rfl⟩
  · exact ⟨nofun, rfl⟩
  · exact ⟨nofun, rfl⟩
  · exact unpackedAmount_roundWithAccuracy _ _ _
  · exact unpackedAmount_roundWithAccuracy _ _ _

/-- The number of a coefficient and a power of ten has no minus sign. -/
theorem amount_ofScientific (coefficient : Nat) (negative : Bool) (places : Nat) :
    Amount (Float.ofScientific coefficient negative places) := by
  unfold Float.ofScientific
  split
  case isFalse => exact Amount.of_packed (unpackedAmount_ofScientific _ _) rfl
  case isTrue small =>
    have power := (powersOfTen_exact ⟨places, Nat.lt_succ_of_le small.2⟩).1
    have whole : Amount coefficient.toUInt64.toFloat ∧
        coefficient.toUInt64.toFloat.isFinite = true := by
      obtain rfl | positive := Nat.eq_zero_or_pos coefficient
      · exact ⟨Amount.zero, by decide⟩
      · have lasts := (toFloat_natural positive small.1).1
        exact ⟨Amount.of_lasts lasts, lasts.2⟩
    dsimp only
    split
    case isTrue => exact whole.1.div whole.2 power.1
    case isFalse => exact whole.1.mul power

/-- No positive number is written with a minus sign before it. -/
theorem not_lasts_of_minus (read : readFloat? ('-' :: back) = some beats) : ¬ Lasts beats := by
  obtain ⟨size, sized, rfl⟩ := Option.map_eq_some_iff.mp read
  change readSize? back = some size at sized
  change ¬ Lasts (-size)
  have opposite (amount : Amount size) : ¬ Lasts (-size) := by
    intro lasts
    obtain ⟨-, -, below⟩ := lt_iff_place.mp lasts.1
    obtain ⟨-, -, above⟩ := le_iff_place.mp amount.nonneg
    rw [place_neg, place_zero] at below
    rw [place_zero] at above
    linarith
  unfold readSize? at sized
  split at sized
  case isTrue =>
    cases sized
    decide
  case isFalse =>
    split at sized
    case isTrue =>
      cases sized
      decide
    case isFalse =>
      obtain ⟨decimal, -, rfl⟩ := Option.map_eq_some_iff.mp sized
      refine opposite ?_
      unfold toFloat
      split
      · exact amount_ofScientific _ _ _
      · exact amount_ofScientific _ _ _

/-- The first hyphen of a positive finite number stands right after the letter of its power of ten,
and the text before the hyphen is no number. -/
theorem hyphen_of_lasts (read : readFloat? (front ++ '-' :: back) = some beats)
    (lasts : Lasts beats) (first : '-' ∉ front) :
    (∃ stem letter, front = stem ++ [letter] ∧ PowerLetter letter) ∧
      readFloat? front = none := by
  have filled : front ≠ [] := by
    rintro rfl
    exact not_lasts_of_minus read lasts
  obtain ⟨head, tail, power, rfl, found⟩ :=
    exists_power_of_readFloat? foreign_hyphen (.inl filled) read
  obtain ⟨letter, rfl, known⟩ :=
    eq_letter_of_readPower? (fun member => first (List.mem_append_right _ member)) found
  exact ⟨⟨head, letter, rfl, known⟩, readFloat?_concat known⟩

end Sizes

end Rhythm.Decimal
