import Rhythm.Decimal.Binary

/-
This file finds the shortest decimal number that denotes a given binary64 number. Of the shortest
ones the nearest to the exact value counts. The main statement is `readsBack_of_nearest?`.
-/

namespace Rhythm.Decimal

/-- Two neighbours at the same distance leave a choice between the larger one and the one with an
even coefficient. -/
inductive Tie where
  | larger
  | even
  deriving DecidableEq

/-- A decimal number reads back when it denotes the given binary64 number. -/
def readsBack (number : Float) (decimal : Decimal) : Bool :=
  decimal.toFloat.toBits == number.toBits

/-- The lower one of two neighbours with the given coefficients comes first when it is nearer. The
distances are counted in halves of the space between the two. -/
def lowerFirst (tie : Tie) (lower twice whole : Nat) : Bool :=
  twice < whole || (twice == whole && tie == .even && lower % 2 == 0)

/-- The two neighbours of a number among the multiples of a power of ten, the preferred one first.
-/
def neighbours (tie : Tie) (value : Binary) (exponent : Int) : Decimal × Decimal :=
  let numerator := value.numerator * Nat.pow 10 (-exponent).toNat
  let denominator := value.denominator * Nat.pow 10 exponent.toNat
  let lower := numerator / denominator
  let below := reduce lower exponent
  let above := reduce (lower + 1) exponent
  if lowerFirst tie lower (2 * (numerator % denominator)) denominator then (below, above)
  else (above, below)

/-- The nearest multiple of a power of ten that reads back, if there is one. -/
def nearest? (tie : Tie) (number : Float) (exponent : Int) : Option Decimal :=
  let (first, second) := neighbours tie (Binary.ofFloat number) exponent
  if readsBack number first then some first
  else if readsBack number second then some second
  else none

/-- The largest number of decimal digits that a binary64 number needs. -/
def mostDigits : Nat := 17

/-- The shortest decimal number that denotes a positive finite binary64 number. -/
def shortest (tie : Tie) (number : Float) : Decimal :=
  let value := Binary.ofFloat number
  let found := (List.range mostDigits).findSome? fun (places : Nat) =>
    nearest? tie number (value.decade - places)
  found.getD value.toDecimal

theorem readsBack_of_nearest? {tie : Tie} {number : Float} {exponent : Int} {decimal : Decimal}
    (found : nearest? tie number exponent = some decimal) : readsBack number decimal = true := by
  unfold nearest? at found
  split at found
  split at found
  case isTrue first => exact Option.some.inj found ▸ first
  case isFalse =>
    split at found
    case isTrue second => exact Option.some.inj found ▸ second
    case isFalse => simp at found

end Rhythm.Decimal
