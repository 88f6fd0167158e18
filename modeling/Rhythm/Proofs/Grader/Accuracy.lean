import Rhythm.Proofs.Grader.Tally

/-
This file compares the accuracy of a run with the exact percentage of accurate taps. The main
statement is `Grader.accuracy_rounded`, that it is that percentage rounded half up, apart from four
halves and from counts of more than 44 bits.
-/

namespace Rhythm.Grader

/-- The exact percentage of accurate taps. -/
def exactPercentage (grader : Grader) : ℚ :=
  100 * grader.accurate / grader.counted

/-- The exact percentage lies half way between a whole one and the next. -/
def Halfway (grader : Grader) (percent : Nat) : Prop :=
  200 * grader.accurate = (2 * percent + 1) * grader.counted

section Runs

variable {windows : List Window} {calls : List Call} {grader : Grader}

theorem accuracy?_eq_some (positive : 0 < grader.counted) :
    grader.accuracy? = some (Binary.percentage grader.accurate grader.counted) :=
  if_neg positive.ne'

/-- When there is something to count, the accuracy of any run is a number. A percentage that is a
half is rounded down if it is one of the lowered ones. Any other percentage is rounded half up if
the count has no more than 44 bits, or if it is a half or keeps away from all halves. The accuracy
is never off by more than a half and the error of the arithmetic. -/
theorem accuracy_rounded (reached : (new windows).run calls = grader)
    (positive : 0 < grader.counted) (bound : grader.counted < 2 ^ 53) :
    ∃ percent, grader.accuracy? = some percent ∧
      (∀ lower ∈ Binary.loweredHalves, grader.Halfway lower → percent = lower) ∧
      ((∀ lower ∈ Binary.loweredHalves, ¬ grader.Halfway lower) →
        (grader.counted ≤ 2 ^ 44 ∨ (∃ lower, grader.Halfway lower) ∨
          ∀ lower : Nat, 2 ^ (-45 : Int) ≤ |grader.exactPercentage - (lower + 1 / 2)|) →
        percent = ⌊grader.exactPercentage + 1 / 2⌋₊) ∧
      |percent - grader.exactPercentage| ≤ 1 / 2 + 2 ^ (-45 : Int) := by
  have order : grader.accurate ≤ grader.counted :=
    reached ▸ (tallied_run windows calls).accurate_le_counted
  refine ⟨_, accuracy?_eq_some positive, ?_, ?_, Binary.percentage_error order positive bound⟩
  · intro lower lowered half
    rw [Binary.percentage_half order positive bound half, if_pos lowered]
  · intro raised size
    by_cases halved : ∃ lower, grader.Halfway lower
    · obtain ⟨lower, half⟩ := halved
      have kept : lower ∉ Binary.loweredHalves := fun lowered => raised lower lowered half
      rw [Binary.percentage_half order positive bound half, if_neg kept, exactPercentage,
        Binary.floor_half positive half]
    · refine Binary.percentage_eq_floor order positive bound ?_
      obtain few | apart := size
      · exact Binary.apart_of_few positive few (not_exists.mp halved)
      · exact apart.resolve_left halved

end Runs

section Example

/-- Forty moments, each of which is a window of its own. -/
def moments : List Window :=
  (List.range 40).map fun second => ⟨Float.ofNat second, Float.ofNat second⟩

/-- Taps at the first twenty-three of forty moments. -/
def partialTaps : List Call :=
  (List.range 23).map (fun second => .tap (Float.ofNat second)) ++ [.advance 40]

def partialGrader : Grader :=
  (new moments).run partialTaps

theorem partialGrader_counts : partialGrader.accurate = 23 ∧ partialGrader.counted = 40 := by
  decide +kernel

/-- Half a percent over fifty-seven is rounded down. -/
theorem accuracy_rounded_partialTaps :
    0 < partialGrader.counted ∧ partialGrader.counted < 2 ^ 53 ∧
    partialGrader.accuracy? = some 57 := by
  obtain ⟨accurate, counted⟩ := partialGrader_counts
  have positive : 0 < partialGrader.counted := by
    rw [counted]
    decide
  have bound : partialGrader.counted < 2 ^ 53 := by
    rw [counted]
    decide
  obtain ⟨percent, found, lowered, -⟩ :=
    @accuracy_rounded moments partialTaps partialGrader rfl positive bound
  have half : partialGrader.Halfway 57 := by
    rw [Halfway, accurate, counted]
  rw [found, lowered 57 (by decide) half]
  exact ⟨positive, bound, rfl⟩

/-- The accuracy is not always the exact percentage rounded half up. -/
theorem not_accuracy_half_up :
    ¬ ∀ (windows : List Window) (calls : List Call), 0 < ((new windows).run calls).counted →
      ((new windows).run calls).counted < 2 ^ 53 → ((new windows).run calls).accuracy? =
        some ⌊((new windows).run calls).exactPercentage + 1 / 2⌋₊ := by
  intro rounded
  have counts := partialGrader_counts
  have found : partialGrader.accuracy? = some ⌊partialGrader.exactPercentage + 1 / 2⌋₊ :=
    rounded moments partialTaps (counts.2.symm ▸ by decide) (counts.2.symm ▸ by decide)
  have lowered : partialGrader.accuracy? = some 57 := by
    rw [accuracy?_eq_some (counts.2.symm ▸ by decide), counts.1, counts.2]
    decide +kernel
  have half : ⌊partialGrader.exactPercentage + 1 / 2⌋₊ = 58 := by
    rw [exactPercentage, counts.1, counts.2]
    norm_num
  rw [lowered, half] at found
  cases found

end Example

end Rhythm.Grader
