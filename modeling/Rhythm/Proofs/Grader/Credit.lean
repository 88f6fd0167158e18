import Rhythm.Grader

/-
This file says what the flag and the misses of a grader record about its windows. The main
statement is `Grader.Credits.record`.
-/

namespace Rhythm.Grader

open scoped Classical in
/-- A grader credits some windows when it knows whether the current one is among them, has missed
the others that it has passed, and credits none ahead. -/
structure Credits (credited : Nat → Prop) (grader : Grader) : Prop where
  hit_iff : grader.hit = true ↔ credited grader.index
  missed_eq : grader.missed =
    (List.range grader.index).countP fun index => ¬ credited index
  le_index : ∀ index, credited index → index ≤ grader.index

variable {credited : Nat → Prop} {grader : Grader} {ahead : List Window} {now : Float}

theorem closeAhead_of_open {window : Window} (unclosed : now ≤ window.closes) :
    closeAhead now (window :: ahead) grader = (0, grader) := by
  rw [closeAhead, if_pos unclosed]

theorem closeAhead_of_closed {window : Window} (closed : ¬ now ≤ window.closes) :
    closeAhead now (window :: ahead) grader =
      ((closeAhead now ahead grader.close).1 + 1, (closeAhead now ahead grader.close).2) := by
  rw [closeAhead, if_neg closed]

/-- What each closing keeps is kept when the windows ahead close. -/
theorem closeAhead_keeps {kept : Grader → Prop} (close : ∀ grader, kept grader → kept grader.close)
    (start : kept grader) : kept (grader.closeAhead now ahead).2 := by
  induction ahead generalizing grader with
  | nil => exact start
  | cons window rest inductionHypothesis =>
      by_cases unclosed : now ≤ window.closes
      · rw [closeAhead_of_open unclosed]
        exact start
      · rw [closeAhead_of_closed unclosed]
        exact inductionHypothesis (close grader start)

/-- What each closing keeps is kept when a grader is told the time. -/
theorem advance_keeps {kept : Grader → Prop} (close : ∀ grader, kept grader → kept grader.close)
    (start : kept grader) : kept (grader.advance now).2 :=
  closeAhead_keeps close start

theorem closeAhead_windows : (closeAhead now ahead grader).2.windows = grader.windows :=
  closeAhead_keeps (fun other (same : other.windows = grader.windows) => same) rfl

/-- A window that closes is missed if it was not credited. -/
theorem Credits.close (credits : Credits credited grader) : Credits credited grader.close where
  hit_iff := by
    constructor
    · intro hit
      cases hit
    · intro marked
      exact absurd (credits.le_index _ marked) (Nat.not_succ_le_self _)
  missed_eq := by
    simp only [Grader.close, List.range_succ, List.countP_append, List.countP_singleton,
      ← credits.missed_eq, ← credits.hit_iff]
    cases grader.hit <;> rfl
  le_index index marked := Nat.le_succ_of_le (credits.le_index index marked)

/-- A tap that is counted changes neither the windows nor the misses. -/
theorem record_frame (grader : Grader) (outcome : Outcome) :
    (grader.record outcome).windows = grader.windows ∧
      (grader.record outcome).index = grader.index ∧
      (grader.record outcome).missed = grader.missed := by
  cases outcome <;> exact ⟨rfl, rfl, rfl⟩

/-- An accurate tap credits the current window. -/
theorem Credits.record (credits : Credits credited grader) (outcome : Outcome) :
    Credits (fun index => credited index ∨ outcome = .accurate ∧ grader.index = index)
      (grader.record outcome) := by
  obtain ⟨-, indexKept, missedKept⟩ := grader.record_frame outcome
  constructor
  · rw [indexKept]
    cases outcome with
    | accurate => simp [Grader.record]
    | inaccurate => simpa [Grader.record] using credits.hit_iff
  · rw [indexKept, missedKept, credits.missed_eq]
    apply List.countP_congr
    intro index member
    have behind := Nat.ne_of_gt (List.mem_range.mp member)
    simp [behind]
  · intro index marked
    rw [indexKept]
    obtain before | ⟨-, rfl⟩ := marked
    · exact credits.le_index index before
    · exact Nat.le_refl _

end Rhythm.Grader
