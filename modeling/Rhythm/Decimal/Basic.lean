/-
This file holds decimal numbers and the binary64 numbers that they denote.
-/

namespace Rhythm

/-- This is the number `coefficient * 10 ^ exponent`. -/
structure Decimal where
  coefficient : Nat
  exponent : Int
  deriving DecidableEq

namespace Decimal

/-- The binary64 number that is nearest to the decimal number, a tie going to the even one. -/
def toFloat (decimal : Decimal) : Float :=
  if decimal.exponent < 0 then
    Float.ofScientific decimal.coefficient true decimal.exponent.natAbs
  else
    Float.ofScientific (decimal.coefficient * Nat.pow 10 decimal.exponent.toNat) false 0

/-- The number of zeros that the decimal digits of a number end in. -/
def trailingZeros (number : Nat) : Nat :=
  ((Nat.toDigits 10 number).reverse.takeWhile (· == '0')).length

/-- The same number with a coefficient that does not end in a zero. -/
def reduce (coefficient : Nat) (exponent : Int) : Decimal :=
  let zeros := trailingZeros coefficient
  ⟨coefficient / Nat.pow 10 zeros, exponent + zeros⟩

/-- A positive number with a larger power of ten exceeds every finite binary64 number. -/
def greatestPower : Int := 400

/-- A power of ten beyond the greatest one is cut down to it. No binary64 number tells the two
apart. -/
def bounded (decimal : Decimal) : Decimal :=
  ⟨decimal.coefficient, min decimal.exponent greatestPower⟩

end Decimal

end Rhythm
