import Rhythm.Proofs.Grader.Run

/-
This file shows that a grader does not depend on how often it is told the time. The main statement
is `Grader.frames_exact`.
-/

namespace Rhythm

/-- A frame is a call with the updates that come before it. No update is later than the call. -/
structure Frame where
  updates : List Float
  call : Call
  within : ∀ update ∈ updates, update ≤ call.time

/-- The calls of a frame, its updates first. -/
def Frame.calls (frame : Frame) : List Call :=
  frame.updates.map .advance ++ [frame.call]

namespace Grader

/-- The outcomes of the taps among some calls. -/
def outcomes : Grader → List Call → List Outcome
  | _, [] => []
  | grader, .advance now :: rest => outcomes (grader.advance now).2 rest
  | grader, .tap now :: rest => (grader.tap now).1 :: outcomes (grader.tap now).2 rest

section Updates

variable {grader : Grader} {ahead : List Window} {earlier later now : Float} {call : Call}

theorem advance_windows (grader : Grader) (now : Float) :
    (grader.advance now).2.windows = grader.windows :=
  closeAhead_windows

/-- The grader moves on by the windows that close. -/
theorem advance_index (grader : Grader) (now : Float) :
    (grader.advance now).2.index = grader.index + (grader.advance now).1 :=
  closeAhead_index

/-- Windows that have closed at some time stay closed, so the search can go on after them. -/
theorem closeAhead_closeAhead (order : earlier ≤ later) :
    (closeAhead later (ahead.drop (closeAhead earlier ahead grader).1)
      (closeAhead earlier ahead grader).2).2 = (closeAhead later ahead grader).2 := by
  induction ahead generalizing grader with
  | nil => rfl
  | cons window rest inductionHypothesis =>
      by_cases unclosed : earlier ≤ window.closes
      · rw [closeAhead_of_open unclosed, List.drop_zero]
      · have closed : ¬ later ≤ window.closes := by
          intro bound
          exact unclosed (Binary.number_le_trans order bound)
        rw [closeAhead_of_closed unclosed, closeAhead_of_closed closed, List.drop_succ_cons]
        exact inductionHypothesis

/-- An update before a later one makes no difference. -/
theorem advance_advance (grader : Grader) (order : earlier ≤ later) :
    ((grader.advance earlier).2.advance later).2 = (grader.advance later).2 := by
  have ahead : (grader.advance earlier).2.windows.drop (grader.advance earlier).2.index =
      (grader.windows.drop grader.index).drop (grader.advance earlier).1 := by
    rw [advance_windows, advance_index, List.drop_drop]
  rw [advance, ahead]
  exact closeAhead_closeAhead order

/-- The windows that close in two updates are those that close in the later one alone. -/
theorem advance_count_add (grader : Grader) (order : earlier ≤ later) :
    (grader.advance earlier).1 + ((grader.advance earlier).2.advance later).1 =
      (grader.advance later).1 := by
  have both := (grader.advance earlier).2.advance_index later
  rw [advance_advance grader order, advance_index, advance_index, Nat.add_assoc] at both
  exact (Nat.add_left_cancel both).symm

/-- An update before a tap makes no difference. -/
theorem tap_advance (grader : Grader) (order : earlier ≤ later) :
    (grader.advance earlier).2.tap later = grader.tap later := by
  rw [tap, tap, advance_advance grader order]

/-- An update before a call changes neither its outcome nor the grader after it. -/
theorem call_advance (grader : Grader) (order : now ≤ call.time) :
    (grader.advance now).2.outcomes [call] = grader.outcomes [call] ∧
      (grader.advance now).2.follow call = grader.follow call := by
  cases call with
  | advance later => exact ⟨rfl, advance_advance grader order⟩
  | tap later =>
      have same : (grader.advance now).2.tap later = grader.tap later := tap_advance grader order
      refine ⟨?_, congrArg Prod.snd same⟩
      change [((grader.advance now).2.tap later).1] = [(grader.tap later).1]
      rw [same]

end Updates

section Frames

variable {updates : List Float} {call : Call}

theorem run_append (grader : Grader) (calls more : List Call) :
    grader.run (calls ++ more) = (grader.run calls).run more :=
  List.foldl_append

theorem outcomes_append (grader : Grader) (calls more : List Call) :
    grader.outcomes (calls ++ more) =
      grader.outcomes calls ++ (grader.run calls).outcomes more := by
  induction calls generalizing grader with
  | nil => rfl
  | cons call rest inductionHypothesis =>
      cases call with
      | advance now => exact inductionHypothesis _
      | tap now => exact congrArg ((grader.tap now).1 :: ·) (inductionHypothesis _)

/-- Updates before a call change neither its outcome nor the grader after it. -/
theorem updates_call (grader : Grader) (within : ∀ update ∈ updates, update ≤ call.time) :
    grader.outcomes (updates.map .advance ++ [call]) = grader.outcomes [call] ∧
      grader.run (updates.map .advance ++ [call]) = grader.run [call] := by
  induction updates generalizing grader with
  | nil => exact ⟨rfl, rfl⟩
  | cons update rest inductionHypothesis =>
      obtain ⟨own, others⟩ := List.forall_mem_cons.mp within
      obtain ⟨ownOutcome, ownGrader⟩ := call_advance grader own
      obtain ⟨restOutcome, restGrader⟩ := inductionHypothesis (grader.advance update).2 others
      exact ⟨restOutcome.trans ownOutcome, restGrader.trans ownGrader⟩

/-- The updates of frames change neither the outcomes of taps nor the grader at the end. -/
theorem run_frames (grader : Grader) (frames : List Frame) :
    grader.outcomes (frames.flatMap Frame.calls) = grader.outcomes (frames.map Frame.call) ∧
      grader.run (frames.flatMap Frame.calls) = grader.run (frames.map Frame.call) := by
  induction frames generalizing grader with
  | nil => exact ⟨rfl, rfl⟩
  | cons frame rest inductionHypothesis =>
      obtain ⟨ownOutcome, ownGrader⟩ := updates_call grader frame.within
      obtain ⟨restOutcome, restGrader⟩ := inductionHypothesis (grader.run [frame.call])
      rw [List.flatMap_cons, List.map_cons, ← List.singleton_append, outcomes_append,
        outcomes_append, run_append, run_append, Frame.calls, ownOutcome, ownGrader, restOutcome,
        restGrader]
      exact ⟨rfl, rfl⟩

/-- It makes no difference whether a grader is told an earlier time before an update or a tap. As
many windows close in both updates as in the later one alone. In a run, no update that comes right
before a later call changes the outcome of a tap, or the grader after any of the calls. -/
theorem frames_exact (grader : Grader) {earlier later : Float} (order : earlier ≤ later) :
    ((grader.advance earlier).2.advance later).2 = (grader.advance later).2 ∧
    (∀ now, (grader.advance now).2.index = grader.index + (grader.advance now).1) ∧
    (grader.advance earlier).1 + ((grader.advance earlier).2.advance later).1 =
      (grader.advance later).1 ∧
    (grader.advance earlier).2.tap later = grader.tap later ∧
    ∀ frames : List Frame,
      grader.outcomes (frames.flatMap Frame.calls) = grader.outcomes (frames.map Frame.call) ∧
      ∀ front, front <+: frames →
        grader.run (front.flatMap Frame.calls) = grader.run (front.map Frame.call) :=
  ⟨advance_advance grader order, advance_index grader, advance_count_add grader order,
    tap_advance grader order, fun frames =>
      ⟨(run_frames grader frames).1, fun front _ => (run_frames grader front).2⟩⟩

end Frames

section Example

/-- Three windows, the second of which closes before the first one. -/
def crossedWindows : List Window :=
  [⟨1, 2⟩, ⟨0, 1⟩, ⟨2, 4⟩]

/-- A tap that follows two updates, between which two of the crossed windows close. -/
def updatedTap : Frame :=
  ⟨[1.5, 2.5], .tap 3, by decide⟩

/-- The tap hits the third window with the updates or without them. -/
theorem frames_exact_crossed :
    (2.5 : Float) ≤ 3 ∧
    ((new crossedWindows).advance 2.5).2.tap 3 = (new crossedWindows).tap 3 ∧
    (new crossedWindows).outcomes ([updatedTap].flatMap Frame.calls) = [.accurate] ∧
    ((new crossedWindows).run ([updatedTap].flatMap Frame.calls)).missed = 2 := by
  have order : (2.5 : Float) ≤ 3 := by decide
  obtain ⟨-, -, -, sameTap, framed⟩ := frames_exact (new crossedWindows) order
  obtain ⟨sameOutcomes, sameGrader⟩ := framed [updatedTap]
  refine ⟨order, sameTap, sameOutcomes.trans ?_, ?_⟩
  · decide
  · rw [sameGrader [updatedTap] List.prefix_rfl]
    decide

end Example

end Grader

end Rhythm
