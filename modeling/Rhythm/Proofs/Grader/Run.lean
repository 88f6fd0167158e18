import Rhythm.Proofs.Grader.Credit
import Rhythm.Proofs.Binary.Order

/-
This file says what a grader has found after a run of calls, by the times of the calls alone. The
main statement is `Grader.run_exact`.
-/

namespace Rhythm

/-- A call tells a grader the time. It may be a tap. -/
inductive Call where
  | advance (now : Float)
  | tap (now : Float)

def Call.time : Call → Float
  | .advance now => now
  | .tap now => now

/-- Calls are ordered when time does not run backwards between them. -/
def Ordered (calls : List Call) : Prop :=
  (calls.map Call.time).Pairwise (· ≤ ·)

namespace Grader

def follow (grader : Grader) : Call → Grader
  | .advance now => (grader.advance now).2
  | .tap now => (grader.tap now).2

def run (grader : Grader) (calls : List Call) : Grader :=
  calls.foldl follow grader

end Grader

/-- How many windows come before the first one that has not closed. -/
def firstOpen (windows : List Window) (now : Float) : Nat :=
  windows.findIdx fun window => now ≤ window.closes

/-- A tap reaches a window when it is the first one that has not closed, and has opened. -/
def Reaches (windows : List Window) (now : Float) (index : Nat) : Prop :=
  firstOpen windows now = index ∧ ∃ window ∈ windows[index]?, window.opens ≤ now

/-- A window is struck when a tap reaches it. -/
def Struck (windows : List Window) (calls : List Call) (index : Nat) : Prop :=
  ∃ now, .tap now ∈ calls ∧ Reaches windows now index

/-- A window receives an accurate tap when one is made while it is the current window. -/
def Received (windows : List Window) (calls : List Call) (index : Nat) : Prop :=
  ∃ earlier now later, calls = earlier ++ .tap now :: later ∧
    (((Grader.new windows).run earlier).tap now).1 = .accurate ∧
    (((Grader.new windows).run earlier).tap now).2.index = index

open scoped Classical in
/-- The state of a grader is settled by its calls when it has passed no window that is struck
later, and knows of those it has passed and of the current one whether they were struck. -/
structure Settled (windows : List Window) (calls : List Call) (grader : Grader) : Prop where
  windows_eq : grader.windows = windows
  hit_iff : grader.hit = true ↔ Struck windows calls grader.index
  missed_eq : grader.missed =
    (List.range grader.index).countP fun index => ¬ Struck windows calls index
  struck_le : ∀ index, Struck windows calls index → index ≤ grader.index

section Histories

variable {windows : List Window} {calls : List Call} {now : Float} {index : Nat}

theorem not_struck_nil : ¬ Struck windows [] index := by
  intro struck
  obtain ⟨now, member, -⟩ := struck
  cases member

theorem struck_concat_advance :
    Struck windows (calls ++ [.advance now]) index ↔ Struck windows calls index := by
  simp [Struck]

/-- A tap adds the window that it reaches to those that have been struck. -/
theorem struck_concat_tap :
    Struck windows (calls ++ [.tap now]) index ↔
      Struck windows calls index ∨ Reaches windows now index := by
  simp only [Struck, List.mem_append, List.mem_singleton, Call.tap.injEq, or_and_right,
    exists_or, exists_eq_left]

/-- Windows do not open again. -/
theorem firstOpen_mono {later : Float} (order : now ≤ later) :
    firstOpen windows now ≤ firstOpen windows later := by
  apply List.findIdx_le_findIdx
  intro window _ unclosed
  rw [decide_eq_true_iff] at unclosed ⊢
  exact Binary.number_le_trans order unclosed

/-- The first open window is found by a search that starts after closed ones. -/
theorem firstOpen_drop (passed : index ≤ firstOpen windows now) :
    index + firstOpen (windows.drop index) now = firstOpen windows now := by
  have within : index ≤ windows.length := passed.trans List.findIdx_le_length
  have front : firstOpen (windows.take index) now = index := by
    rw [firstOpen, List.findIdx_take]
    exact Nat.min_eq_left passed
  have cut : firstOpen windows now = firstOpen (windows.take index ++ windows.drop index) now := by
    rw [List.take_append_drop]
  rw [firstOpen] at front
  rw [cut, firstOpen, firstOpen, List.findIdx_append, front, List.length_take,
    Nat.min_eq_left within, if_neg (Nat.lt_irrefl index), Nat.add_comm]

end Histories

section Steps

variable {windows ahead : List Window} {calls : List Call} {grader : Grader} {now : Float}

/-- A new grader is settled before any call. -/
theorem Settled.new (windows : List Window) : Settled windows [] (.new windows) where
  windows_eq := rfl
  hit_iff := by simp [Grader.new, not_struck_nil]
  missed_eq := rfl
  struck_le _ struck := absurd struck not_struck_nil

/-- A settled grader credits the windows that have been struck. -/
theorem Settled.credits (settled : Settled windows calls grader) :
    grader.Credits (Struck windows calls) :=
  ⟨settled.hit_iff, settled.missed_eq, settled.struck_le⟩

/-- A window that closes is counted as missed if it was not struck, and none after it was. -/
theorem Settled.close (settled : Settled windows calls grader) :
    Settled windows calls grader.close := by
  obtain ⟨hit, missed, behind⟩ := settled.credits.close
  exact ⟨settled.windows_eq, hit, missed, behind⟩

/-- Windows close up to the first open one, and they are counted. -/
theorem Grader.closeAhead_count : (closeAhead now ahead grader).1 = firstOpen ahead now := by
  induction ahead generalizing grader with
  | nil => rfl
  | cons window rest inductionHypothesis =>
      rw [firstOpen, List.findIdx_cons]
      by_cases unclosed : now ≤ window.closes
      · rw [closeAhead_of_open unclosed, decide_eq_true unclosed, cond_true]
      · rw [closeAhead_of_closed unclosed, decide_eq_false unclosed, cond_false]
        exact congrArg (· + 1) inductionHypothesis

/-- The grader moves on by the windows that close. -/
theorem Grader.closeAhead_index :
    (closeAhead now ahead grader).2.index = grader.index + (closeAhead now ahead grader).1 := by
  induction ahead generalizing grader with
  | nil => rfl
  | cons window rest inductionHypothesis =>
      by_cases unclosed : now ≤ window.closes
      · rw [closeAhead_of_open unclosed, Nat.add_zero]
      · rw [closeAhead_of_closed unclosed, inductionHypothesis]
        simp only [close]
        omega

theorem Settled.closeAhead (settled : Settled windows calls grader) :
    Settled windows calls (grader.closeAhead now ahead).2 :=
  Grader.closeAhead_keeps (fun _ => Settled.close) settled

/-- A call that is not a tap only closes windows. -/
theorem Settled.advance (settled : Settled windows calls grader)
    (passed : grader.index ≤ firstOpen windows now) :
    Settled windows calls (grader.advance now).2 ∧
      (grader.advance now).2.index = firstOpen windows now := by
  refine ⟨settled.closeAhead, ?_⟩
  rw [Grader.advance, Grader.closeAhead_index, Grader.closeAhead_count, settled.windows_eq,
    firstOpen_drop passed]

/-- A tap is accurate when it reaches a window that has not been struck. -/
theorem Settled.judge_eq_accurate_iff (settled : Settled windows calls grader)
    (reached : grader.index = firstOpen windows now) :
    grader.judge now = .accurate ↔
      Reaches windows now grader.index ∧ ¬ Struck windows calls grader.index := by
  have inside : grader.current?.any (·.contains now) = true ↔
      Reaches windows now grader.index := by
    rw [Grader.current?, settled.windows_eq, Option.any_eq_true, Reaches]
    simp only [← reached, true_and, Option.mem_def]
    refine exists_congr fun window => and_congr_right fun found => ?_
    rw [reached, firstOpen] at found
    have unclosed := List.findIdx_of_getElem?_eq_some found
    simp only [Window.contains, unclosed, Bool.and_true, decide_eq_true_iff]
  rw [Grader.judge, ← settled.hit_iff, ← inside]
  cases grader.hit <;> cases grader.current?.any (·.contains now) <;> decide

/-- A tap strikes the window it reaches, and no other one. -/
theorem Settled.record (settled : Settled windows calls grader)
    (reached : grader.index = firstOpen windows now) :
    Settled windows (calls ++ [.tap now]) (grader.record (grader.judge now)) := by
  have struck : (fun index => Struck windows calls index ∨
      grader.judge now = .accurate ∧ grader.index = index) =
      Struck windows (calls ++ [.tap now]) := by
    funext index
    rw [struck_concat_tap, settled.judge_eq_accurate_iff reached]
    refine propext ⟨Or.imp_right ?_, fun marked => or_iff_not_imp_left.mpr fun fresh => ?_⟩
    · rintro ⟨⟨reaches, -⟩, rfl⟩
      exact reaches
    · have reaches := marked.resolve_left fresh
      obtain rfl : grader.index = index := reached.trans reaches.1
      exact ⟨⟨reaches, fresh⟩, rfl⟩
  obtain ⟨hit, missed, behind⟩ := struck ▸ settled.credits.record (grader.judge now)
  exact ⟨(grader.record_frame _).1.trans settled.windows_eq, hit, missed, behind⟩

/-- A call takes the grader to the first window that is open at its time. -/
theorem Settled.follow (settled : Settled windows calls grader) {call : Call}
    (passed : grader.index ≤ firstOpen windows call.time) :
    Settled windows (calls ++ [call]) (grader.follow call) ∧
      (grader.follow call).index = firstOpen windows call.time := by
  obtain ⟨ready, reached⟩ := settled.advance passed
  cases call with
  | advance now =>
      have same : Struck windows (calls ++ [.advance now]) = Struck windows calls :=
        funext fun index => propext struck_concat_advance
      refine ⟨⟨ready.windows_eq, ?_, ?_, ?_⟩, reached⟩ <;> rw [same]
      · exact ready.hit_iff
      · exact ready.missed_eq
      · exact ready.struck_le
  | tap now =>
      refine ⟨ready.record reached, ?_⟩
      rw [← reached]
      change ((grader.advance now).2.record ((grader.advance now).2.judge now)).index = _
      cases (grader.advance now).2.judge now <;> rfl

end Steps

section Runs

variable {windows : List Window} {calls earlier : List Call} {call : Call} {now : Float}

theorem Ordered.of_append {later : List Call} (ordered : Ordered (earlier ++ later)) :
    Ordered earlier := by
  rw [Ordered, List.map_append] at ordered
  exact (List.pairwise_append.mp ordered).1

theorem Ordered.front {later : List Call} (ordered : Ordered (earlier ++ call :: later)) :
    Ordered (earlier ++ [call]) := by
  rw [List.append_cons] at ordered
  exact ordered.of_append

theorem Ordered.le (ordered : Ordered (earlier ++ [call])) {before : Call}
    (member : before ∈ earlier) : before.time ≤ call.time := by
  rw [Ordered, List.map_append] at ordered
  exact (List.pairwise_append.mp ordered).2.2 _ (List.mem_map_of_mem member) _ (by simp)

theorem Grader.run_concat (grader : Grader) (calls : List Call) (call : Call) :
    grader.run (calls ++ [call]) = (grader.run calls).follow call := by
  rw [run, List.foldl_append]
  rfl

/-- A run in order settles the grader and passes none of the windows still open at the end. -/
theorem Grader.settled_run (windows : List Window) (ordered : Ordered calls) :
    Settled windows calls ((new windows).run calls) ∧
      ∀ time, (∀ call ∈ calls, call.time ≤ time) →
        ((new windows).run calls).index ≤ firstOpen windows time := by
  -- The second part is what the last call needs of the ones before it, to find its window ahead.
  induction calls using List.reverseRecOn with
  | nil => exact ⟨Settled.new windows, fun time _ => Nat.zero_le _⟩
  | append_singleton earlier call inductionHypothesis =>
      obtain ⟨settled, passed⟩ := inductionHypothesis ordered.of_append
      obtain ⟨after, reached⟩ := settled.follow (passed call.time fun _ member => ordered.le member)
      rw [run_concat]
      refine ⟨after, fun time late => ?_⟩
      rw [reached]
      exact firstOpen_mono (late call (by simp))

/-- A tap is graded by the taps before it. -/
theorem Grader.tap_run (windows : List Window) (ordered : Ordered (earlier ++ [.tap now])) :
    ((((new windows).run earlier).tap now).1 = .accurate ↔
      Reaches windows now (firstOpen windows now) ∧
        ¬ Struck windows earlier (firstOpen windows now)) ∧
    (((new windows).run earlier).tap now).2.index = firstOpen windows now := by
  obtain ⟨settled, passed⟩ := settled_run windows ordered.of_append
  have behind := passed now fun _ member => ordered.le member
  obtain ⟨ready, reached⟩ := settled.advance behind
  constructor
  · rw [← reached]
    exact ready.judge_eq_accurate_iff reached
  · exact (@Settled.follow _ _ _ settled (.tap now) behind).2

/-- The windows that receive an accurate tap are those that are struck. -/
theorem received_iff_struck {index : Nat} (ordered : Ordered calls) :
    Received windows calls index ↔ Struck windows calls index := by
  constructor
  · intro received
    obtain ⟨earlier, now, later, rfl, accurate, current⟩ := received
    obtain ⟨graded, reached⟩ := Grader.tap_run windows ordered.front
    rw [← current, reached]
    exact ⟨now, by simp, (graded.mp accurate).1⟩
  · -- The accurate tap is the first one that reaches the window, so the calls lose their last one
    -- until it is that tap.
    intro struck
    induction calls using List.reverseRecOn with
    | nil => exact absurd struck not_struck_nil
    | append_singleton earlier call inductionHypothesis =>
        by_cases before : Struck windows earlier index
        · obtain ⟨front, now, later, split, accurate⟩ :=
            inductionHypothesis ordered.of_append before
          exact ⟨front, now, later ++ [call], by simp [split], accurate⟩
        · cases call with
          | advance now => exact absurd (struck_concat_advance.mp struck) before
          | tap now =>
              have reaches := (struck_concat_tap.mp struck).resolve_left before
              obtain ⟨graded, reached⟩ := Grader.tap_run windows ordered
              rw [reaches.1] at graded reached
              exact ⟨earlier, now, [], rfl, graded.mpr ⟨reaches, before⟩, reached⟩

open scoped Classical in
/-- In a run in order, a tap is accurate when the first window that has not closed has opened and
no tap before reached the same window. After a call the grader is at the first window that has not
closed, and has missed the windows before it that received no accurate tap. -/
theorem Grader.run_exact (windows : List Window) (ordered : Ordered calls) :
    (∀ earlier now later, calls = earlier ++ .tap now :: later →
      ((((new windows).run earlier).tap now).1 = .accurate ↔
        ∃ window ∈ windows[firstOpen windows now]?, window.opens ≤ now ∧
          ∀ time, .tap time ∈ earlier → firstOpen windows time = firstOpen windows now →
            ¬ window.opens ≤ time)) ∧
    ∀ earlier call later, calls = earlier ++ call :: later →
      ((new windows).run (earlier ++ [call])).index = firstOpen windows call.time ∧
      ((new windows).run (earlier ++ [call])).missed =
        (List.range (firstOpen windows call.time)).countP fun index =>
          ¬ Received windows (earlier ++ [call]) index := by
  have front {earlier later : List Call} {call : Call} (split : calls = earlier ++ call :: later) :
      Ordered (earlier ++ [call]) := by
    rw [split] at ordered
    exact ordered.front
  constructor
  · intro earlier now later split
    rw [(tap_run windows (front split)).1, Reaches]
    constructor
    · intro graded
      obtain ⟨⟨-, window, found, opened⟩, fresh⟩ := graded
      refine ⟨window, found, opened, fun time tapped same reached => fresh ?_⟩
      exact ⟨time, tapped, same, window, found, reached⟩
    · intro graded
      obtain ⟨window, found, opened, fresh⟩ := graded
      refine ⟨⟨rfl, window, found, opened⟩, fun struck => ?_⟩
      obtain ⟨time, tapped, same, other, otherFound, reached⟩ := struck
      cases Option.mem_unique found otherFound
      exact fresh time tapped same reached
  · intro earlier call later split
    obtain ⟨settled, passed⟩ := settled_run windows (front split).of_append
    obtain ⟨after, reached⟩ :=
      settled.follow (passed call.time fun _ member => (front split).le member)
    rw [run_concat]
    refine ⟨reached, ?_⟩
    rw [after.missed_eq, reached]
    apply List.countP_congr
    intro index _
    simp only [decide_eq_true_iff, received_iff_struck (front split)]

end Runs

section Example

/-- Two windows around the first and the second second. -/
def twoWindows : List Window :=
  [⟨0.9, 1.1⟩, ⟨1.9, 2.1⟩]

/-- The first of two windows is hit, and the second one is missed. -/
theorem Grader.run_exact_twoWindows :
    Ordered [.tap 1.05, .advance 2.5] ∧
    (((new twoWindows).run []).tap 1.05).1 = .accurate ∧
    ((new twoWindows).run [.tap 1.05, .advance 2.5]).index = 2 := by
  have ordered : Ordered [.tap 1.05, .advance 2.5] := by
    unfold Ordered
    decide
  obtain ⟨graded, counted⟩ := Grader.run_exact twoWindows ordered
  refine ⟨ordered, ?_, ?_⟩
  · refine (graded [] 1.05 [.advance 2.5] rfl).mpr ⟨⟨0.9, 1.1⟩, ?_, ?_, ?_⟩
    · decide
    · decide
    · intro time before
      cases before
  · refine (counted [.tap 1.05] (.advance 2.5) [] rfl).1.trans ?_
    decide

end Example

end Rhythm
