import Rhythm.Proofs.Binary.Approximates
import Rhythm.Proofs.Grader.Accuracy

/-
This file follows a player who taps once in the middle of every window. The main statement is
`Grader.perfect_exact`, that all these taps are accurate and that nothing is missed.
-/

namespace Rhythm

/-- A window is regular when its ends are finite and in order, and their sum is finite. -/
structure Window.Regular (window : Window) : Prop where
  opens_finite : window.opens.isFinite = true
  closes_finite : window.closes.isFinite = true
  ordered : window.opens ≤ window.closes
  sum_finite : (window.opens + window.closes).isFinite = true

/-- Windows are spaced when each of them closes before the middle of the next one. They may still
overlap. -/
structure Spaced (windows : List Window) : Prop where
  regular : ∀ window ∈ windows, window.Regular
  apart : windows.IsChain fun first second => first.closes < second.center

/-- One tap in the middle of every window. -/
def centerTaps (windows : List Window) : List Call :=
  windows.map fun window => .tap window.center

section Windows

variable {windows front back : List Window} {window : Window} {index : Nat} {now : Float}

/-- The middle of a window lies in it, although it is rounded. -/
theorem Window.Regular.center_between (regular : window.Regular) :
    window.opens ≤ window.center ∧ window.center ≤ window.closes :=
  Binary.middle_between regular.opens_finite regular.closes_finite regular.sum_finite
    regular.ordered

/-- Each window closes before the middle of any later one. -/
theorem Spaced.pairwise (spaced : Spaced windows) :
    windows.Pairwise fun first second => first.closes < second.center := by
  induction windows with
  | nil => exact List.Pairwise.nil
  | cons window rest inductionHypothesis =>
      obtain ⟨regular, apart⟩ := spaced
      have regular := List.forall_mem_cons.mp regular
      have ordered := inductionHypothesis ⟨regular.2, apart.tail⟩
      refine List.pairwise_cons.mpr ⟨?_, ordered⟩
      cases rest with
      | nil => exact nofun
      | cons next others =>
          have own : window.closes < next.center := (List.isChain_cons_cons.mp apart).1
          have nextRegular := regular.2 next List.mem_cons_self
          intro later member
          obtain rfl | behind := List.mem_cons.mp member
          · exact own
          · have beyond := (List.pairwise_cons.mp ordered).1 later behind
            have reach := Binary.number_le_trans nextRegular.center_between.2
              (Binary.number_le_of_lt beyond)
            exact Binary.number_lt_of_lt_of_le own reach

/-- No window is open when all of them have closed. -/
theorem firstOpen_eq_length (late : ∀ window ∈ windows, window.closes < now) :
    firstOpen windows now = windows.length := by
  rw [firstOpen, List.findIdx_eq_length]
  intro window member
  exact decide_eq_false (Binary.number_not_le_of_lt (late window member))

/-- In the middle of a window the windows before it have closed, and it has not. -/
theorem Spaced.firstOpen_center (spaced : Spaced windows) (found : windows[index]? = some window) :
    firstOpen windows window.center = index := by
  obtain ⟨inside, rfl⟩ := List.getElem?_eq_some_iff.mp found
  refine (List.findIdx_eq inside).mpr ⟨?_, fun earlier less => ?_⟩
  · exact decide_eq_true (spaced.regular _ (List.getElem_mem inside)).center_between.2
  · have closed := List.pairwise_iff_getElem.mp spaced.pairwise earlier index
      (less.trans inside) inside less
    exact decide_eq_false (Binary.number_not_le_of_lt closed)

/-- After the end of the last window all windows have closed. -/
theorem Spaced.closes_lt (spaced : Spaced windows)
    (late : ∀ window ∈ windows.getLast?, window.closes < now) :
    ∀ window ∈ windows, window.closes < now := by
  obtain rfl | ⟨front, last, rfl⟩ := windows.eq_nil_or_concat'
  · exact nofun
  · have end_lt := late last (by simp)
    intro window member
    obtain before | same := List.mem_append.mp member
    · have closed := (List.pairwise_append.mp spaced.pairwise).2.2 window before last (by simp)
      have inside := (spaced.regular last (by simp)).center_between.2
      exact Binary.number_lt_of_lt_of_le closed
        (Binary.number_le_trans inside (Binary.number_le_of_lt end_lt))
    · rwa [List.mem_singleton.mp same]

/-- The middle of a window comes before any time at which it has closed. -/
theorem Spaced.center_le (spaced : Spaced windows) (member : window ∈ windows)
    (closed : window.closes < now) : window.center ≤ now :=
  Binary.number_le_trans (spaced.regular window member).center_between.2
    (Binary.number_le_of_lt closed)

/-- The taps in the middles come in order. -/
theorem Spaced.ordered_centerTaps (spaced : Spaced windows) : Ordered (centerTaps windows) := by
  rw [Ordered, centerTaps, List.map_map, List.pairwise_map]
  exact spaced.pairwise.imp_of_mem fun member _ less => spaced.center_le member less

/-- A time at which all windows have closed comes after the taps in the middles. -/
theorem Spaced.ordered_advance (spaced : Spaced windows)
    (late : ∀ window ∈ windows, window.closes < now) :
    Ordered (centerTaps windows ++ [.advance now]) := by
  rw [Ordered, List.map_append, List.pairwise_append]
  refine ⟨spaced.ordered_centerTaps, List.pairwise_singleton _ _, ?_⟩
  intro time member last isLast
  obtain ⟨call, tapped, rfl⟩ := List.mem_map.mp member
  obtain ⟨window, inside, rfl⟩ := List.mem_map.mp tapped
  rw [List.mem_singleton.mp isLast]
  exact spaced.center_le inside (late window inside)

end Windows

namespace Grader

section Taps

variable {windows front back : List Window} {window : Window} {calls : List Call}
  {outcome : Outcome} {now : Float}

/-- Every outcome is that of a tap among the calls. -/
theorem exists_of_mem_outcomes {grader : Grader} (member : outcome ∈ grader.outcomes calls) :
    ∃ earlier now later, calls = earlier ++ .tap now :: later ∧
      ((grader.run earlier).tap now).1 = outcome := by
  induction calls generalizing grader with
  | nil => cases member
  | cons call rest inductionHypothesis =>
      cases call with
      | advance now =>
          obtain ⟨earlier, time, later, rfl, same⟩ := inductionHypothesis member
          exact ⟨.advance now :: earlier, time, later, rfl, same⟩
      | tap now =>
          obtain own | later := List.mem_cons.mp member
          · exact ⟨[], now, rest, rfl, own.symm⟩
          · obtain ⟨earlier, time, others, rfl, same⟩ := inductionHypothesis later
            exact ⟨.tap now :: earlier, time, others, rfl, same⟩

/-- A tap in the middle of a window is accurate after those in the windows before it. -/
theorem accurate_center (spaced : Spaced (front ++ window :: back)) :
    (((new (front ++ window :: back)).run (centerTaps front)).tap window.center).1 =
      .accurate := by
  have found : (front ++ window :: back)[front.length]? = some window := by simp
  have reached := spaced.firstOpen_center found
  have ordered : Ordered (centerTaps front ++ [.tap window.center]) := by
    have taps := spaced.ordered_centerTaps
    rw [centerTaps, List.map_append, List.map_cons] at taps
    exact taps.front
  have opened := (spaced.regular window (by simp)).center_between.1
  refine (tap_run (front ++ window :: back) ordered).1.mpr ⟨⟨rfl, window, ?_, opened⟩, ?_⟩
  · rw [reached]
    exact found
  · -- The taps before it have reached the windows in front.
    intro struck
    obtain ⟨now, tapped, same, -⟩ := struck
    obtain ⟨other, member, equal⟩ := List.mem_map.mp tapped
    cases equal
    obtain ⟨index, inside, rfl⟩ := List.mem_iff_getElem.mp member
    have otherFound : (front ++ window :: back)[index]? = some front[index] := by
      rw [List.getElem?_append_left inside, List.getElem?_eq_getElem inside]
    rw [spaced.firstOpen_center otherFound, reached] at same
    exact absurd same inside.ne

/-- All taps in the middles are accurate. -/
theorem outcomes_centerTaps (spaced : Spaced windows) :
    (new windows).outcomes (centerTaps windows) = List.replicate windows.length .accurate := by
  rw [List.eq_replicate_iff]
  constructor
  · have taps : (Call.isTap ∘ fun window : Window => Call.tap window.center) = fun _ => true := rfl
    rw [outcomes_length, centerTaps, List.countP_map, taps, List.countP_true]
  · intro outcome member
    obtain ⟨earlier, now, later, split, rfl⟩ := exists_of_mem_outcomes member
    obtain ⟨front, others, rfl, rfl, rest⟩ := List.map_eq_append_iff.mp split
    obtain ⟨window, back, rfl, same, -⟩ := List.map_eq_cons_iff.mp rest
    cases same
    exact accurate_center spaced

/-- After the taps in the middles, a grader that is told the end has hit all windows. -/
theorem run_centerTaps (spaced : Spaced windows) {grader : Grader}
    (late : ∀ window ∈ windows, window.closes < now)
    (reached : (new windows).run (centerTaps windows ++ [.advance now]) = grader) :
    grader.isFinished = true ∧ grader.taps = windows.length ∧ grader.accurate = windows.length ∧
      grader.missed = 0 := by
  have ordered := spaced.ordered_advance late
  obtain ⟨settled, passed⟩ := settled_run windows ordered.of_append
  have behind := passed now fun _ member => ordered.le member
  have index : grader.index = windows.length := by
    rw [← reached, run_concat, ← firstOpen_eq_length late]
    exact (@Settled.follow _ _ _ settled (.advance now) behind).2
  have tallied := tallied_run windows (centerTaps windows ++ [.advance now])
  rw [reached] at tallied
  have finished : grader.isFinished = true := by
    rw [isFinished, tallied.windows_eq, index]
    exact decide_eq_true le_rfl
  have outcomes : (new windows).outcomes (centerTaps windows ++ [.advance now]) =
      List.replicate windows.length .accurate := by
    rw [outcomes_append, outcomes_centerTaps spaced]
    exact List.append_nil _
  have taps : grader.taps = windows.length := by
    rw [tallied.taps_eq, ← outcomes_length (new windows), outcomes, List.length_replicate]
  have accurate : grader.accurate = windows.length := by
    rw [tallied.accurate_eq, outcomes, List.count_replicate_self]
  have settled := tallied.settled_of_finished finished
  exact ⟨finished, taps, accurate, by omega⟩

/-- Who taps once in the middle of each window, and not before the middle comes, has only accurate
taps, however often the grader is told the time before a tap or the end. The windows must be regular
and spaced, but may overlap. At the end the grader is finished and has missed none. The accuracy is
one hundred, as long as the number of windows is a word. -/
theorem perfect_exact {windows : List Window} {frames : List Frame} {last : Frame} {now : Float}
    (nonempty : windows ≠ []) (spaced : Spaced windows)
    (played : frames.map Frame.call = centerTaps windows) (ends : last.call = .advance now)
    (late : ∀ window ∈ windows.getLast?, window.closes < now) :
    (new windows).outcomes (frames.flatMap Frame.calls) =
      List.replicate windows.length .accurate ∧
    ∃ grader, (new windows).run ((frames ++ [last]).flatMap Frame.calls) = grader ∧
      grader.isFinished = true ∧ grader.taps = windows.length ∧
      grader.accurate = windows.length ∧ grader.missed = 0 ∧
      (windows.length < 2 ^ 64 → grader.accuracy? = some 100) := by
  constructor
  · rw [(run_frames (new windows) frames).1, played]
    exact outcomes_centerTaps spaced
  · have same := (run_frames (new windows) (frames ++ [last])).2
    rw [List.map_append, played, List.map_singleton, ends] at same
    obtain ⟨finished, taps, accurate, missed⟩ :=
      run_centerTaps spaced (spaced.closes_lt late) same.symm
    refine ⟨_, rfl, finished, taps, accurate, missed, fun bound => ?_⟩
    generalize (new windows).run ((frames ++ [last]).flatMap Frame.calls) = grader at *
    have counted : grader.counted = windows.length := by
      rw [counted, taps, missed, Nat.add_zero]
    have positive : 0 < windows.length := List.length_pos_iff.mpr nonempty
    rw [accuracy?_eq_some (counted ▸ positive), accurate, counted,
      Binary.percentage_self positive bound]

end Taps

section Example

/-- Two windows that overlap. Each of them closes before the middle of the next. -/
def overlapping : List Window :=
  [⟨0, 2⟩, ⟨1, 5⟩]

/-- Taps in the middles of the overlapping windows, with updates in between. -/
def overlappingFrames : List Frame :=
  [⟨[0.5, 0.25], .tap 1, by decide⟩, ⟨[2, 2.5], .tap 3, by decide⟩]

def overlappingEnd : Frame :=
  ⟨[4, 5.5], .advance 6, by decide⟩

theorem spaced_overlapping : Spaced overlapping := by
  constructor
  · intro window member
    obtain rfl | rfl : window = ⟨0, 2⟩ ∨ window = ⟨1, 5⟩ := by
      simpa [overlapping] using member
    · exact ⟨by decide, by decide, by decide, by decide⟩
    · exact ⟨by decide, by decide, by decide, by decide⟩
  · exact List.isChain_pair.mpr (by decide)

/-- The overlapping windows are tapped perfectly. -/
theorem perfect_exact_overlapping :
    overlapping ≠ [] ∧ Spaced overlapping ∧
    overlappingFrames.map Frame.call = centerTaps overlapping ∧
    (new overlapping).outcomes (overlappingFrames.flatMap Frame.calls) =
      [.accurate, .accurate] ∧
    ((new overlapping).run ((overlappingFrames ++ [overlappingEnd]).flatMap
      Frame.calls)).accuracy? = some 100 := by
  have centers : (⟨0, 2⟩ : Window).center = 1 ∧ (⟨1, 5⟩ : Window).center = 3 := by decide
  have played : overlappingFrames.map Frame.call = centerTaps overlapping := by
    simp only [centerTaps, overlapping, List.map_cons, List.map_nil, centers]
    rfl
  have late : ∀ window ∈ overlapping.getLast?, window.closes < 6 := by
    decide
  obtain ⟨outcomes, grader, reached, -, -, -, -, accuracy⟩ :=
    @perfect_exact overlapping overlappingFrames overlappingEnd 6 (by decide) spaced_overlapping
      played rfl late
  refine ⟨by decide, spaced_overlapping, played, outcomes, ?_⟩
  rw [reached]
  exact accuracy (by decide)

end Example

end Grader

end Rhythm
