import Rhythm.Decimal.Basic
import Rhythm.Text.Numeral

/-
This file reads the written forms of binary64 numbers: an optional sign, then digits with an
optional point and an optional power of ten, or a word for infinity or for no number.
-/

namespace Rhythm.Decimal

open Rhythm.Text

/-- A minus sign is cut off and reported, and a plus sign is cut off. -/
def cutSign : List Char → Bool × List Char
  | '-' :: rest => (true, rest)
  | '+' :: rest => (false, rest)
  | text => (false, text)

/-- The power of ten is a signed numeral after the letter `e`, and may be left out. -/
def readPower? : List Char → Option Int
  | [] => some 0
  | letter :: rest =>
      if letter = 'e' ∨ letter = 'E' then
        let (negative, digits) := cutSign rest
        (Numeral.read? digits).map fun power => if negative then -(power : Int) else power
      else none

/-- The digits after the point, and the text that follows them. -/
def cutFraction : List Char → List Char × List Char
  | '.' :: rest => rest.span Char.isDigit
  | text => ([], text)

/-- An unsigned decimal number with at least one digit before or after its point. -/
def read? (text : List Char) : Option Decimal :=
  let (whole, rest) := text.span Char.isDigit
  let (fraction, power) := cutFraction rest
  match Numeral.read? (whole ++ fraction), readPower? power with
  | some coefficient, some exponent => some ⟨coefficient, exponent - fraction.length⟩
  | _, _ => none

/-- The words for infinity are read in capital and small letters alike. -/
def isInfinity (text : List Char) : Bool :=
  let small := text.map Char.toLower
  small == "inf".toList || small == "infinity".toList

def isUndefined (text : List Char) : Bool :=
  text.map Char.toLower == "nan".toList

/-- The size of a written binary64 number. -/
def readSize? (text : List Char) : Option Float :=
  if isInfinity text then some (1 / 0)
  else if isUndefined text then some (0 / 0)
  else (read? text).map fun decimal => decimal.bounded.toFloat

/-- The binary64 number that is nearest to a written one. -/
def readFloat? (text : List Char) : Option Float :=
  let (negative, rest) := cutSign text
  (readSize? rest).map fun size => if negative then -size else size

end Rhythm.Decimal
