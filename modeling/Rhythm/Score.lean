import Rhythm.Measure

/-
This file holds scores, which are measures played one after the other.
-/

namespace Rhythm

abbrev Score := List Measure

namespace Score

/-- The elements of all measures in playing order. Barlines leave no mark. -/
def elements (score : Score) : List Element :=
  score.flatMap Measure.elements

def alike (first second : Score) : Bool :=
  first.isEqv second Measure.alike

/-- Each element but the last one is compared with the next one. -/
def ties : List Element → List Bool
  | first :: second :: rest => first.tiedTo second :: ties (second :: rest)
  | _ => []

end Score

end Rhythm
