import Rhythm.Decimal.Basic

/-
This file takes binary64 numbers apart, in exact arithmetic on natural numbers.
-/

namespace Rhythm

/-- This is the number `significand * 2 ^ exponent`. -/
structure Binary where
  significand : Nat
  exponent : Int
  deriving DecidableEq

namespace Binary

/-- The bit above the fraction bits, which is `2 ^ 52`. -/
def leadingBit : Nat := 0x10000000000000

/-- The number of exponent fields, which is `2 ^ 11`. -/
def fieldCount : Nat := 0x800

/-- The exponent field of a binary64 number, with the sign bit above it. -/
def field (number : Float) : Nat :=
  number.toBits.toNat / leadingBit

def fraction (number : Float) : Nat :=
  number.toBits.toNat % leadingBit

/-- The size of a finite binary64 number, without its sign. -/
def ofFloat (number : Float) : Binary :=
  let power : Nat := field number % fieldCount
  if power = 0 then ⟨fraction number, -1074⟩
  else ⟨leadingBit + fraction number, (power : Int) - 1075⟩

/-- The number is a quotient of two natural numbers, and this is the upper one. -/
def numerator (binary : Binary) : Nat :=
  binary.significand * Nat.pow 2 binary.exponent.toNat

/-- The number is a quotient of two natural numbers, and this is the lower one. -/
def denominator (binary : Binary) : Nat :=
  Nat.pow 2 (-binary.exponent).toNat

/-- The nearest natural number, a half being rounded up. -/
def round (binary : Binary) : Nat :=
  (2 * binary.numerator + binary.denominator) / (2 * binary.denominator)

def toDecimal (binary : Binary) : Decimal :=
  if binary.exponent < 0 then
    ⟨binary.significand * Nat.pow 5 binary.exponent.natAbs, binary.exponent⟩
  else
    ⟨binary.numerator, 0⟩

/-- The power of ten of the leading decimal digit of a positive number. -/
def decade (binary : Binary) : Int :=
  if binary.denominator ≤ binary.numerator then
    (Nat.toDigits 10 (binary.numerator / binary.denominator)).length - 1
  else
    -((Nat.toDigits 10 ((binary.denominator - 1) / binary.numerator)).length : Int)

end Binary

/-- A binary64 number is a power of two when it is positive and normal and has no fraction bits.
-/
def isPowerOfTwo (number : Float) : Bool :=
  Binary.fraction number == 0 && 0 < Binary.field number &&
    Binary.field number + 1 < Binary.fieldCount

end Rhythm
