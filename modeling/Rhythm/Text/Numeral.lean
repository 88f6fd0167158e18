/-
This file writes natural numbers in decimal digits and reads numerals.
-/

namespace Rhythm.Text.Numeral

/-- The decimal digits of a number, without leading zeros. -/
def write (number : Nat) : List Char :=
  Nat.toDigits 10 number

/-- A numeral is a text of at least one decimal digit. -/
def read? (text : List Char) : Option Nat :=
  if !text.isEmpty && text.all Char.isDigit then some (Nat.ofDigitChars 10 text 0) else none

/-- One leading plus sign is allowed before a numeral. -/
def dropPlus : List Char → List Char
  | '+' :: rest => rest
  | text => text

/-- A word is a numeral below `2 ^ 32`, with an optional plus sign. -/
def readWord? (text : List Char) : Option UInt32 :=
  match read? (dropPlus text) with
  | some number => if number < UInt32.size then some (UInt32.ofNat number) else none
  | none => none

theorem write_ne_nil (number : Nat) : write number ≠ [] :=
  Nat.toDigits_ne_nil

theorem isDigit_of_mem_write {number : Nat} {character : Char}
    (member : character ∈ write number) : character.isDigit = true :=
  Nat.isDigit_of_mem_toDigits (by decide) (by decide) member

end Rhythm.Text.Numeral
