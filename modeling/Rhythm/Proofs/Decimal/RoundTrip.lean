import Rhythm.Decimal.Layout
import Rhythm.Decimal.Literal
import Rhythm.Proofs.Decimal.Exact
import Rhythm.Proofs.Text.Line
import Rhythm.Proofs.Text.Numeral

/-
This file shows that the plain form of a positive finite number reads back as that number. The
main statement is `readFloat?_plain`.
-/

namespace Rhythm.Decimal

open Rhythm.Text

/-- A positive finite number is written by its shortest decimal form, without a sign. -/
theorem writeFloat_of_lasts {style : Style} {number : Float} (lasts : Lasts number) :
    writeFloat style number = write style (shortest style.tie number) := by
  obtain ⟨canonical, positive, unpacked⟩ := Binary.unpack_of_lasts lasts
  have defined : number.isNaN = false := by
    change number.toModel.unpack.isNaN = false
    rw [unpacked]
    rfl
  have bounded : number.isInf = false := by
    change number.toModel.unpack.isInf = false
    rw [unpacked]
    rfl
  have nonzero : (number == 0) = false := by
    change number.toModel.unpack.beq (0 : Float).toModel.unpack = false
    rw [unpacked]
    rfl
  have plus : signOf number = [] := by
    have side := (Binary.unpack_eq_finite_iff.mp unpacked).2.2
    unfold Binary.sign at side
    split at side
    case isTrue small => exact if_pos small
    case isFalse => cases side
  have size : number.abs = number := by
    refine Binary.eq_of_packed lasts ⟨positive, ?_⟩
    change Float.Model.pack number.toModel.unpack.abs = _
    rw [unpacked]
    rfl
  simp only [writeFloat, defined, bounded, nonzero, plus, size]
  rfl

/-- Digits are cut off up to the first other character. -/
theorem span_digits {digits rest : List Char} (all : ∀ character ∈ digits, character.isDigit)
    (stop : ∀ character ∈ rest.head?, character.isDigit = false) :
    (digits ++ rest).span Char.isDigit = (digits, rest) := by
  have none : rest.takeWhile Char.isDigit = [] ∧ rest.dropWhile Char.isDigit = rest := by
    cases rest with
    | nil => simp
    | cons character rest => simp [stop character rfl]
  rw [List.span_eq_takeWhile_dropWhile, List.takeWhile_append_of_pos all,
    List.dropWhile_append_of_pos all, none.1, none.2, List.append_nil]

/-- Digits without a point are a natural number. -/
theorem read?_whole {digits : List Char} (nonempty : digits ≠ [])
    (all : ∀ character ∈ digits, character.isDigit) :
    read? digits = some ⟨Nat.ofDigitChars 10 digits 0, 0⟩ := by
  have cut : digits.span Char.isDigit = (digits, []) := by
    simpa only [List.append_nil] using @span_digits digits [] all (by simp)
  have value := Numeral.read?_eq_some_iff.mpr ⟨nonempty, all, rfl⟩
  simp only [read?, cut, cutFraction, List.append_nil, value, readPower?]
  rfl

/-- The digits after the point lower the power of ten. -/
theorem read?_point {whole fraction : List Char} (nonempty : whole ≠ [])
    (wholeDigits : ∀ character ∈ whole, character.isDigit)
    (fractionDigits : ∀ character ∈ fraction, character.isDigit) :
    read? (whole ++ '.' :: fraction) =
      some ⟨Nat.ofDigitChars 10 (whole ++ fraction) 0, -(fraction.length : Int)⟩ := by
  have wholeCut : (whole ++ '.' :: fraction).span Char.isDigit = (whole, '.' :: fraction) :=
    span_digits wholeDigits (by simp)
  have fractionCut : fraction.span Char.isDigit = (fraction, []) := by
    simpa only [List.append_nil] using @span_digits fraction [] fractionDigits (by simp)
  have all : ∀ character ∈ whole ++ fraction, character.isDigit := by
    intro character member
    obtain inWhole | inFraction := List.mem_append.mp member
    · exact wholeDigits character inWhole
    · exact fractionDigits character inFraction
  have value := Numeral.read?_eq_some_iff.mpr
    ⟨List.append_ne_nil_of_left_ne_nil nonempty fraction, all, rfl⟩
  simp only [read?, wholeCut, cutFraction, fractionCut, value, readPower?, Int.zero_sub]

theorem isDigit_of_mem_replicate {count : Nat} {character : Char}
    (member : character ∈ List.replicate count '0') : character.isDigit = true := by
  rw [List.eq_of_mem_replicate member]
  rfl

section Written

variable (coefficient zeros : Nat)

theorem isDigit_of_mem_written :
    ∀ character ∈ Numeral.write coefficient, character.isDigit = true :=
  fun _ => Numeral.isDigit_of_mem_write

theorem ofDigitChars_written : Nat.ofDigitChars 10 (Numeral.write coefficient) 0 = coefficient :=
  Nat.ofDigitChars_ten_toDigits

/-- Zeros after the digits of a number raise it by a power of ten. -/
theorem read?_written_zeros :
    read? (Numeral.write coefficient ++ List.replicate zeros '0') =
      some ⟨coefficient * Nat.pow 10 zeros, 0⟩ := by
  have nonempty : Numeral.write coefficient ++ List.replicate zeros '0' ≠ [] :=
    List.append_ne_nil_of_left_ne_nil (Numeral.write_ne_nil coefficient) _
  have all : ∀ character ∈ Numeral.write coefficient ++ List.replicate zeros '0',
      character.isDigit := by
    intro character member
    obtain inDigits | inZeros := List.mem_append.mp member
    · exact isDigit_of_mem_written coefficient character inDigits
    · exact isDigit_of_mem_replicate inZeros
  rw [read?_whole nonempty all, Nat.ofDigitChars_append, ofDigitChars_written,
    Nat.ofDigitChars_replicate_zero, Nat.mul_comm]
  rfl

/-- A point among the digits of a number lowers it by a power of ten. -/
theorem read?_written_point {places : Nat}
    (inside : places < (Numeral.write coefficient).length) :
    read? ((Numeral.write coefficient).take ((Numeral.write coefficient).length - places) ++
      '.' :: (Numeral.write coefficient).drop ((Numeral.write coefficient).length - places)) =
        some ⟨coefficient, -(places : Int)⟩ := by
  have digits := isDigit_of_mem_written coefficient
  have nonempty :
      (Numeral.write coefficient).take ((Numeral.write coefficient).length - places) ≠ [] := by
    rw [ne_eq, List.take_eq_nil_iff]
    rintro (none | none)
    · omega
    · exact Numeral.write_ne_nil coefficient none
  rw [read?_point nonempty (fun _ member => digits _ (List.mem_of_mem_take member))
    (fun _ member => digits _ (List.mem_of_mem_drop member)), List.take_append_drop,
    ofDigitChars_written, List.length_drop, Nat.sub_sub_self inside.le]

/-- A point before the digits of a number, with zeros between them, lowers it too. -/
theorem read?_zeros_written :
    read? ('0' :: '.' :: List.replicate zeros '0' ++ Numeral.write coefficient) =
      some ⟨coefficient, -((zeros + (Numeral.write coefficient).length : Nat) : Int)⟩ := by
  have zero : ∀ character ∈ ['0'], character.isDigit := List.all_eq_true.mp rfl
  have fraction : ∀ character ∈ List.replicate zeros '0' ++ Numeral.write coefficient,
      character.isDigit := by
    intro character member
    obtain inZeros | inDigits := List.mem_append.mp member
    · exact isDigit_of_mem_replicate inZeros
    · exact isDigit_of_mem_written coefficient character inDigits
  have value : Nat.ofDigitChars 10
      (['0'] ++ (List.replicate zeros '0' ++ Numeral.write coefficient)) 0 = coefficient := by
    rw [Nat.ofDigitChars_append, Nat.ofDigitChars_append, Nat.ofDigitChars_replicate_zero]
    exact ofDigitChars_written coefficient
  have cut := read?_point (List.cons_ne_nil '0' []) zero fraction
  rw [value, List.length_append, List.length_replicate] at cut
  exact cut

end Written

/-- Digits that are laid out around a point keep the number. -/
theorem read?_positional (coefficient : Nat) (exponent : Int) :
    ∃ decimal : Decimal, read? (positional [] (Numeral.write coefficient) exponent) = some decimal ∧
      decimal.exponent ≤ 0 ∧ decimal.toFloat = (⟨coefficient, exponent⟩ : Decimal).toFloat := by
  unfold positional
  dsimp only
  split
  case isTrue natural =>
    rw [List.append_nil, read?_written_zeros]
    refine ⟨_, rfl, Int.le_refl 0, ?_⟩
    simp [toFloat, Int.not_lt.mpr natural]
  case isFalse negative =>
    have places : -((-exponent).toNat : Int) = exponent := by omega
    have lowered : exponent ≤ 0 := (Int.not_le.mp negative).le
    split
    case isTrue inside =>
      rw [read?_written_point coefficient inside, places]
      exact ⟨_, rfl, lowered, rfl⟩
    case isFalse outside =>
      rw [read?_zeros_written, Nat.sub_add_cancel (Nat.not_lt.mp outside), places]
      exact ⟨_, rfl, lowered, rfl⟩

/-- A power of ten that lowers a number is not cut down. -/
theorem bounded_of_le {decimal : Decimal} (small : decimal.exponent ≤ 0) :
    decimal.bounded = decimal := by
  have below : decimal.exponent ≤ greatestPower := Int.le_trans small (by decide)
  rw [bounded, min_eq_left below]

/-- A text that starts with a digit has no sign and is no word. -/
theorem readFloat?_of_digit {first : Char} {rest : List Char} (digit : first.isDigit = true) :
    readFloat? (first :: rest) =
      (read? (first :: rest)).map fun decimal => decimal.bounded.toFloat := by
  have unsigned : cutSign (first :: rest) = (false, first :: rest) := by
    unfold cutSign
    split
    case h_1 equation => cases equation; cases digit
    case h_2 equation => cases equation; cases digit
    case h_3 => rfl
  have small : first.toLower = first := by
    have range := Char.isDigit_iff_toNat.mp digit
    have low : first.toNat < 'A'.toNat := Nat.lt_of_le_of_lt range.2 (by decide)
    exact dif_neg fun capital => Nat.not_le.mpr low (UInt32.le_iff_toNat_le.mp capital.1)
  have other : first ≠ 'i' ∧ first ≠ 'n' := by
    constructor <;> rintro rfl <;> cases digit
  have bounded : isInfinity (first :: rest) = false := by
    simp [isInfinity, small, other.1]
  have defined : isUndefined (first :: rest) = false := by
    simp [isUndefined, small, other.2]
  simp only [readFloat?, unsigned, readSize?, bounded, defined]
  cases read? (first :: rest) <;> rfl

/-- A number that is laid out starts with a digit. -/
theorem positional_eq_cons (coefficient : Nat) (exponent : Int) :
    ∃ first rest, positional [] (Numeral.write coefficient) exponent = first :: rest ∧
      first.isDigit = true := by
  obtain ⟨first, rest, written⟩ := List.exists_cons_of_ne_nil (Numeral.write_ne_nil coefficient)
  have digit : first.isDigit = true :=
    Numeral.isDigit_of_mem_write (written ▸ List.mem_cons_self)
  unfold positional
  dsimp only
  split
  case isTrue => exact ⟨first, _, by rw [written]; rfl, digit⟩
  case isFalse =>
    split
    case isTrue inside =>
      obtain ⟨count, whole⟩ := Nat.exists_eq_succ_of_ne_zero (Nat.sub_ne_zero_of_lt inside)
      exact ⟨first, _, by rw [whole, written]; rfl, digit⟩
    case isFalse => exact ⟨'0', _, rfl, rfl⟩

/-- In its plain form a positive finite number is laid out around a point. -/
theorem writeFloat_plain {number : Float} (lasts : Lasts number) :
    writeFloat plain number = positional []
      (Numeral.write (shortest .larger number).coefficient) (shortest .larger number).exponent :=
  writeFloat_of_lasts lasts

/-- The plain form of a positive finite number reads back as that number. -/
theorem readFloat?_plain {number : Float} (lasts : Lasts number) :
    readFloat? (writeFloat plain number) = some number := by
  obtain ⟨decimal, back, small, same⟩ := read?_positional
    (shortest .larger number).coefficient (shortest .larger number).exponent
  obtain ⟨first, rest, start, digit⟩ := positional_eq_cons
    (shortest .larger number).coefficient (shortest .larger number).exponent
  rw [writeFloat_plain lasts, start, readFloat?_of_digit digit, ← start, back, Option.map_some,
    bounded_of_le small, same]
  exact congrArg some (toFloat_shortest lasts)

/-- A number that is laid out has only digits and a point. -/
theorem mem_positional {coefficient : Nat} {exponent : Int} {character : Char}
    (member : character ∈ positional [] (Numeral.write coefficient) exponent) :
    character.isDigit = true ∨ character = '.' := by
  have digit : ∀ character ∈ Numeral.write coefficient,
      character.isDigit = true ∨ character = '.' :=
    fun _ inDigits => Or.inl (Numeral.isDigit_of_mem_write inDigits)
  have zero : ∀ count, ∀ character ∈ List.replicate count '0',
      character.isDigit = true ∨ character = '.' :=
    fun _ _ inZeros => Or.inl (isDigit_of_mem_replicate inZeros)
  unfold positional at member
  dsimp only at member
  split at member
  case isTrue =>
    rw [List.append_nil] at member
    obtain inDigits | inZeros := List.mem_append.mp member
    · exact digit character inDigits
    · exact zero _ character inZeros
  case isFalse =>
    split at member
    case isTrue =>
      obtain inWhole | point | inFraction := mem_append_cons member
      · exact digit character (List.mem_of_mem_take inWhole)
      · exact Or.inr point
      · exact digit character (List.mem_of_mem_drop inFraction)
    case isFalse =>
      obtain inFront | inDigits := List.mem_append.mp member
      · obtain first | inFront := List.mem_cons.mp inFront
        · exact Or.inl (first ▸ rfl)
        · obtain point | inZeros := List.mem_cons.mp inFront
          · exact Or.inr point
          · exact zero _ character inZeros
      · exact digit character inDigits

/-- The plain form of a positive finite number has only digits and a point. -/
theorem mem_plain {number : Float} (lasts : Lasts number) {character : Char}
    (member : character ∈ writeFloat plain number) :
    character.isDigit = true ∨ character = '.' := by
  rw [writeFloat_plain lasts] at member
  exact mem_positional member

end Rhythm.Decimal
