import Rhythm.Decimal.Shortest
import Rhythm.Text.Numeral

/-
This file writes binary64 numbers as text. A style says which decimal digits stand for a number
and how they are laid out.
-/

namespace Rhythm.Decimal

open Rhythm.Text

/-- This record collects the choices of a written form. -/
structure Style where
  /-- Which one of two equally near shortest decimal numbers is written. -/
  tie : Tie
  /-- Whether digits are written around a point that stands after so many of them. A point before
  the first digit has a negative place. Other numbers are written with an exponent. -/
  positional : Int → Bool
  /-- What follows the digits of a whole number. -/
  wholeEnd : List Char
  /-- What is written for an infinite number, after its sign. -/
  infinite : List Char
  /-- What is written for no number. -/
  undefined : List Char

/-- The digits are written around a point. -/
def positional (wholeEnd digits : List Char) (exponent : Int) : List Char :=
  let places := (-exponent).toNat
  if 0 ≤ exponent then
    digits ++ List.replicate exponent.toNat '0' ++ wholeEnd
  else if places < digits.length then
    digits.take (digits.length - places) ++ '.' :: digits.drop (digits.length - places)
  else
    '0' :: '.' :: List.replicate (places - digits.length) '0' ++ digits

/-- A signed integer is written with a sign only if it is negative. -/
def writeInt (number : Int) : List Char :=
  (if number < 0 then ['-'] else []) ++ Numeral.write number.natAbs

/-- The point is written after the first digit and a power of ten follows. -/
def scientific (digits : List Char) (exponent : Int) : List Char :=
  let point := if digits.length ≤ 1 then [] else ['.']
  digits.take 1 ++ point ++ digits.drop 1 ++ 'e' :: writeInt (exponent + digits.length - 1)

/-- The written form of an unsigned decimal number. -/
def write (style : Style) (decimal : Decimal) : List Char :=
  let digits := Numeral.write decimal.coefficient
  if style.positional (digits.length + decimal.exponent) then
    positional style.wholeEnd digits decimal.exponent
  else
    scientific digits decimal.exponent

/-- The sign of a binary64 number is written only if it is a minus sign. -/
def signOf (number : Float) : List Char :=
  if Binary.field number < Binary.fieldCount then [] else ['-']

def writeFloat (style : Style) (number : Float) : List Char :=
  if number.isNaN then style.undefined
  else if number.isInf then signOf number ++ style.infinite
  else if number == 0 then signOf number ++ write style ⟨0, 0⟩
  else signOf number ++ write style (shortest style.tie number.abs)

/-- A plain number has all its digits, no exponent, and no point if it is whole. -/
def plain : Style where
  tie := .larger
  positional _ := true
  wholeEnd := []
  infinite := "inf".toList
  undefined := "NaN".toList

/-- The plain form of a number, as it stands in scores and in messages. -/
def plainText (number : Float) : String :=
  String.ofList (writeFloat plain number)

end Rhythm.Decimal
