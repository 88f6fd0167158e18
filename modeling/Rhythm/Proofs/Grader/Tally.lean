import Rhythm.Proofs.Binary.Share
import Rhythm.Proofs.Grader.Frames

/-
This file shows that a grader settles each window once, whatever the times of its calls are. The
main statement is `Grader.tally_exact`.
-/

namespace Rhythm

def Call.isTap : Call → Bool
  | .advance _ => false
  | .tap _ => true

namespace Grader

/-- The tap at some place of a run hits a window when it is accurate and that window is the current
one. -/
def Hits (windows : List Window) (calls : List Call) (place index : Nat) : Prop :=
  ∃ earlier now later, calls = earlier ++ .tap now :: later ∧ earlier.length = place ∧
    (((new windows).run earlier).tap now).1 = .accurate ∧
    (((new windows).run earlier).tap now).2.index = index

/-- The counts are balanced when they make up the windows passed, and the current one if that has
been hit. -/
def Balanced (grader : Grader) : Prop :=
  grader.accurate + grader.missed = grader.index + grader.hit.toNat

/-- A grader tallies some calls when it has counted their taps, has settled each window that it has
passed, and knows which of its windows received an accurate tap. -/
structure Tallied (windows : List Window) (calls : List Call) (grader : Grader) : Prop where
  windows_eq : grader.windows = windows
  index_le : grader.index ≤ windows.length
  taps_eq : grader.taps = calls.countP Call.isTap
  accurate_eq : grader.accurate = ((new windows).outcomes calls).count .accurate
  balanced : grader.Balanced
  credits : grader.Credits (Received windows calls)

section Steps

variable {windows : List Window} {calls : List Call} {call : Call} {grader : Grader} {now : Float}
  {index : Nat} {credited : Nat → Prop}

theorem Credits.advance (credits : grader.Credits credited) :
    (grader.advance now).2.Credits credited :=
  advance_keeps (fun _ => Credits.close) credits

theorem advance_counts (grader : Grader) (now : Float) :
    (grader.advance now).2.taps = grader.taps ∧ (grader.advance now).2.accurate = grader.accurate :=
  advance_keeps (fun other (same : other.taps = grader.taps ∧ other.accurate = grader.accurate) =>
    same) ⟨rfl, rfl⟩

/-- The index stays within the windows. -/
theorem advance_index_le (within : grader.index ≤ grader.windows.length) :
    (grader.advance now).2.index ≤ grader.windows.length := by
  have ahead : (grader.advance now).1 ≤ (grader.windows.drop grader.index).length :=
    closeAhead_count.trans_le List.findIdx_le_length
  rw [advance_index]
  rw [List.length_drop] at ahead
  omega

/-- A window that closes was hit already or is missed now. -/
theorem Balanced.close (balanced : grader.Balanced) : grader.close.Balanced := by
  unfold Balanced Grader.close at *
  cases hit : grader.hit with
  | false =>
      rw [hit, Bool.toNat_false] at balanced
      simp only [Bool.false_eq_true, if_false, Bool.toNat_false]
      omega
  | true =>
      rw [hit, Bool.toNat_true] at balanced
      simp only [if_true, Bool.toNat_false]
      omega

/-- An accurate tap finds a current window that has not been hit. -/
theorem of_judge_accurate (accurate : grader.judge now = .accurate) :
    grader.hit = false ∧ grader.index < grader.windows.length := by
  unfold judge at accurate
  split at accurate
  case isFalse => cases accurate
  case isTrue inside =>
    obtain ⟨fresh, found⟩ := Bool.and_eq_true_iff.mp inside
    obtain ⟨window, current, -⟩ := Option.any_eq_true _ _ |>.mp found
    exact ⟨by simpa using fresh, List.getElem?_eq_some_iff.mp current |>.1⟩

/-- A tap that is judged leaves the counts balanced. -/
theorem Balanced.record (balanced : grader.Balanced) :
    (grader.record (grader.judge now)).Balanced := by
  cases judged : grader.judge now with
  | accurate =>
      have fresh := (of_judge_accurate judged).1
      rw [Balanced, fresh, Bool.toNat_false] at balanced
      simp only [Balanced, Grader.record, Bool.toNat_true]
      omega
  | inaccurate => exact balanced

theorem record_counts (grader : Grader) (outcome : Outcome) :
    (grader.record outcome).taps = grader.taps + 1 ∧
      (grader.record outcome).accurate = grader.accurate + [outcome].count .accurate := by
  cases outcome <;> exact ⟨rfl, rfl⟩

/-- A window receives an accurate tap before the last call or from it. -/
theorem received_concat :
    Received windows (calls ++ [call]) index ↔ Received windows calls index ∨
      ∃ now, call = .tap now ∧ (((new windows).run calls).tap now).1 = .accurate ∧
        (((new windows).run calls).tap now).2.index = index := by
  constructor
  · rintro ⟨earlier, now, later, split, accurate, current⟩
    obtain rfl | ⟨front, last, rfl⟩ := later.eq_nil_or_concat'
    · obtain ⟨rfl, same⟩ := List.append_inj' split rfl
      exact .inr ⟨now, List.singleton_inj.mp same, accurate, current⟩
    · rw [← List.cons_append, ← List.append_assoc] at split
      obtain ⟨rfl, -⟩ := List.append_inj' split rfl
      exact .inl ⟨earlier, now, front, rfl, accurate, current⟩
  · rintro (⟨earlier, now, later, rfl, accurate, current⟩ | ⟨now, rfl, accurate, current⟩)
    · exact ⟨earlier, now, later ++ [call], by simp, accurate, current⟩
    · exact ⟨calls, now, [], rfl, accurate, current⟩

theorem tallied_new (windows : List Window) : Tallied windows [] (new windows) where
  windows_eq := rfl
  index_le := Nat.zero_le _
  taps_eq := rfl
  accurate_eq := rfl
  balanced := rfl
  credits := by
    have none (index : Nat) : ¬ Received windows [] index := by
      rintro ⟨earlier, now, later, split, -⟩
      simp at split
    exact ⟨by simp [new, none], rfl, fun index received => absurd received (none index)⟩

/-- Windows that close leave the tally as it is. -/
theorem Tallied.advance (tallied : Tallied windows calls grader) (now : Float) :
    Tallied windows calls (grader.advance now).2 where
  windows_eq := (grader.advance_windows now).trans tallied.windows_eq
  index_le := tallied.windows_eq ▸ advance_index_le (tallied.windows_eq ▸ tallied.index_le)
  taps_eq := (grader.advance_counts now).1.trans tallied.taps_eq
  accurate_eq := (grader.advance_counts now).2.trans tallied.accurate_eq
  balanced := advance_keeps (fun _ => Balanced.close) tallied.balanced
  credits := tallied.credits.advance

/-- A call that is not a tap is not counted. -/
theorem Tallied.follow_advance (tallied : Tallied windows calls grader) (now : Float) :
    Tallied windows (calls ++ [.advance now]) (grader.advance now).2 := by
  have received : Received windows (calls ++ [.advance now]) = Received windows calls := by
    funext index
    simp [received_concat]
  obtain ⟨windowsKept, within, taps, accurate, balanced, credits⟩ := tallied.advance now
  refine ⟨windowsKept, within, ?_, ?_, balanced, received ▸ credits⟩
  · simpa [Call.isTap] using taps
  · simpa [outcomes_append, outcomes] using accurate

/-- A tap is counted, and credits the current window when it is accurate. -/
theorem Tallied.follow_tap (tallied : Tallied windows calls grader)
    (reached : (new windows).run calls = grader) (now : Float) :
    Tallied windows (calls ++ [.tap now]) (grader.tap now).2 := by
  obtain ⟨windowsKept, within, taps, accurate, balanced, credits⟩ := tallied.advance now
  obtain ⟨windowsFramed, indexFramed, -⟩ :=
    (grader.advance now).2.record_frame (grader.tap now).1
  obtain ⟨tapsCounted, accurateCounted⟩ :=
    (grader.advance now).2.record_counts (grader.tap now).1
  have received : (fun index => Received windows calls index ∨
      (grader.tap now).1 = .accurate ∧ (grader.advance now).2.index = index) =
      Received windows (calls ++ [.tap now]) := by
    funext index
    simp [received_concat, reached, ← indexFramed, tap]
  constructor
  · exact windowsFramed.trans windowsKept
  · exact indexFramed.trans_le within
  · rw [List.countP_append, ← taps]
    exact tapsCounted
  · rw [outcomes_append, List.count_append, ← accurate, reached]
    exact accurateCounted
  · exact balanced.record
  · exact received ▸ credits.record (grader.tap now).1

end Steps

section Runs

variable {windows : List Window} {calls : List Call} {grader : Grader} {now : Float}
  {place other index : Nat}

/-- Every run tallies its calls. -/
theorem tallied_run (windows : List Window) (calls : List Call) :
    Tallied windows calls ((new windows).run calls) := by
  induction calls using List.reverseRecOn with
  | nil => exact tallied_new windows
  | append_singleton earlier call inductionHypothesis =>
      rw [run_concat]
      cases call with
      | advance now => exact inductionHypothesis.follow_advance now
      | tap now => exact inductionHypothesis.follow_tap rfl now

open scoped Classical in
/-- The accurate taps are those received by windows that have been passed and by the current one. -/
theorem Tallied.accurate_eq_countP (tallied : Tallied windows calls grader) :
    grader.accurate = (List.range grader.index).countP (fun index => Received windows calls index) +
      grader.hit.toNat := by
  have passed := List.length_eq_countP_add_countP
    (fun index => decide (Received windows calls index)) (l := List.range grader.index)
  have balanced := tallied.balanced
  have missed := tallied.credits.missed_eq
  simp only [List.length_range, decide_eq_true_eq] at passed
  rw [Balanced] at balanced
  omega

/-- A grader never goes back to a window that it has passed. -/
theorem index_le_run (grader : Grader) (calls : List Call) :
    grader.index ≤ (grader.run calls).index := by
  induction calls generalizing grader with
  | nil => exact le_rfl
  | cons call rest inductionHypothesis =>
      refine le_trans ?_ (inductionHypothesis (grader.follow call))
      have onward (now : Float) : grader.index ≤ (grader.advance now).2.index :=
        (grader.advance_index now).symm ▸ Nat.le_add_right _ _
      cases call with
      | advance now => exact onward now
      | tap now => exact (onward now).trans_eq (record_frame _ _).2.1.symm

/-- Every tap has one outcome. -/
theorem outcomes_length (grader : Grader) (calls : List Call) :
    (grader.outcomes calls).length = calls.countP Call.isTap := by
  induction calls generalizing grader with
  | nil => rfl
  | cons call rest inductionHypothesis =>
      cases call with
      | advance now => exact inductionHypothesis (grader.advance now).2
      | tap now =>
          rw [outcomes, List.length_cons, inductionHypothesis, List.countP_cons_of_pos rfl]

/-- An accurate tap finds a window that has received none before. -/
theorem not_received_of_accurate
    (accurate : (((new windows).run calls).tap now).1 = .accurate) :
    (((new windows).run calls).tap now).2.index < windows.length ∧
      ¬ Received windows calls (((new windows).run calls).tap now).2.index := by
  have tallied := (tallied_run windows calls).advance now
  obtain ⟨fresh, within⟩ := of_judge_accurate accurate
  rw [tallied.windows_eq] at within
  rw [tap, (record_frame _ _).2.1, ← tallied.credits.hit_iff, fresh]
  exact ⟨within, Bool.false_ne_true⟩

theorem Hits.lt_length (hits : Hits windows calls place index) : index < windows.length := by
  obtain ⟨earlier, now, later, -, -, accurate, rfl⟩ := hits
  exact (not_received_of_accurate accurate).1

/-- A tap hits no window but the current one. -/
theorem Hits.index_unique (hits : Hits windows calls place index)
    (otherHits : Hits windows calls place other) : index = other := by
  obtain ⟨earlier, now, later, split, rfl, -, rfl⟩ := hits
  obtain ⟨front, time, back, otherSplit, length, -, rfl⟩ := otherHits
  obtain ⟨rfl, same⟩ := List.append_inj (split.symm.trans otherSplit) length.symm
  obtain ⟨rfl, -⟩ := Call.tap.inj (List.cons.inj same).1
  rfl

/-- A window that was hit is not hit later. -/
theorem Hits.not_lt (hits : Hits windows calls place index)
    (otherHits : Hits windows calls other index) : ¬ place < other := by
  intro order
  obtain ⟨earlier, now, later, split, rfl, accurate, current⟩ := hits
  obtain ⟨front, time, back, otherSplit, rfl, otherAccurate, rfl⟩ := otherHits
  rw [List.append_cons] at split
  obtain ⟨between, rfl⟩ : earlier ++ [.tap now] <+: front :=
    List.prefix_of_prefix_length_le ⟨later, split.symm⟩ ⟨.tap time :: back, otherSplit.symm⟩
      (by simpa using order)
  refine (not_received_of_accurate otherAccurate).2 ⟨earlier, now, between, ?_, accurate, current⟩
  rw [List.append_assoc, List.singleton_append]

theorem accuracy?_eq_none_iff : grader.accuracy? = none ↔ grader.counted = 0 := by
  unfold accuracy?
  split
  case isTrue empty => simp [empty]
  case isFalse counted => simp [counted]

/-- A finished grader has hit or missed each of its windows. -/
theorem Tallied.settled_of_finished (tallied : Tallied windows calls grader)
    (finished : grader.isFinished = true) : grader.accurate + grader.missed = windows.length := by
  have passed := of_decide_eq_true finished
  rw [tallied.windows_eq] at passed
  have reached := le_antisymm passed tallied.index_le
  have settled := tallied.balanced
  cases hit : grader.hit with
  | false => rwa [Balanced, hit, Bool.toNat_false, ← reached] at settled
  | true =>
      obtain ⟨earlier, now, later, split, accurate, current⟩ := tallied.credits.hit_iff.mp hit
      have within := (not_received_of_accurate accurate).1
      rw [current, reached] at within
      exact absurd within (lt_irrefl _)

/-- The accurate taps are among those that count. -/
theorem Tallied.accurate_le_counted (tallied : Tallied windows calls grader) :
    grader.accurate ≤ grader.counted := by
  rw [counted, tallied.taps_eq, tallied.accurate_eq, ← outcomes_length (new windows)]
  exact List.count_le_length.trans (Nat.le_add_right _ _)

/-- The accuracy is a percentage. -/
theorem accuracy?_le (order : grader.accurate ≤ grader.counted)
    (bound : grader.counted < 2 ^ 64) : ∀ percent ∈ grader.accuracy?, percent ≤ 100 := by
  intro percent found
  unfold accuracy? at found
  split at found
  case isTrue => cases found
  case isFalse counted =>
    cases found
    exact Binary.percentage_le order (Nat.pos_of_ne_zero counted) bound

open scoped Classical in
/-- After any calls at any times, a grader has counted the taps, and each window that it has passed
once, as hit or as missed. It never goes back. Each tap hits at most one window, and each window is
hit by at most one tap. The accuracy is a percentage when there is something to count, as long as
the count is a word. -/
theorem tally_exact (windows : List Window) (calls : List Call) :
    Tallied windows calls ((new windows).run calls) ∧
    ((new windows).run calls).accurate = (List.range ((new windows).run calls).index).countP
      (fun index => Received windows calls index) + ((new windows).run calls).hit.toNat ∧
    (∀ earlier, earlier <+: calls →
      ((new windows).run earlier).index ≤ ((new windows).run calls).index) ∧
    (((new windows).run calls).isFinished = true →
      ((new windows).run calls).accurate + ((new windows).run calls).missed = windows.length) ∧
    (∀ place index, Hits windows calls place index → index < windows.length ∧
      (∀ other, Hits windows calls place other → other = index) ∧
      ∀ other, Hits windows calls other index → other = place) ∧
    (((new windows).run calls).accuracy? = none ↔
      ((new windows).run calls).taps + ((new windows).run calls).missed = 0) ∧
    (((new windows).run calls).taps + ((new windows).run calls).missed < 2 ^ 64 →
      ∀ percent ∈ ((new windows).run calls).accuracy?, percent ≤ 100) ∧
    ((new windows).run calls).summary =
      ⟨calls.countP Call.isTap, ((new windows).outcomes calls).count .accurate,
        ((new windows).run calls).missed, ((new windows).run calls).accuracy?⟩ := by
  have tallied := tallied_run windows calls
  refine ⟨tallied, tallied.accurate_eq_countP, ?_, tallied.settled_of_finished, ?_,
    accuracy?_eq_none_iff, ?_, ?_⟩
  · rintro earlier ⟨later, rfl⟩
    rw [run_append]
    exact index_le_run _ later
  · intro place index hits
    refine ⟨hits.lt_length, fun other otherHits => otherHits.index_unique hits, ?_⟩
    intro other otherHits
    exact le_antisymm (not_lt.mp (hits.not_lt otherHits)) (not_lt.mp (otherHits.not_lt hits))
  · exact accuracy?_le tallied.accurate_le_counted
  · rw [summary, tallied.taps_eq, tallied.accurate_eq]

end Runs

section Example

/-- A clock that goes back and then has no time to tell. -/
def strayCalls : List Call :=
  [.tap 1.05, .advance 0.5, .tap 1.05, .advance (0 / 0)]

def strayGrader : Grader :=
  (new twoWindows).run strayCalls

/-- The stray clock closes all windows, and each of them is counted once. -/
theorem tally_exact_strayCalls :
    strayGrader.isFinished = true ∧ strayGrader.accurate + strayGrader.missed = 2 ∧
    strayGrader.taps + strayGrader.missed < 2 ^ 64 ∧
    ∀ percent ∈ strayGrader.accuracy?, percent ≤ 100 := by
  obtain ⟨-, -, -, settled, -, -, percentage, -⟩ := tally_exact twoWindows strayCalls
  have finished : strayGrader.isFinished = true := by decide
  have small : strayGrader.taps + strayGrader.missed < 2 ^ 64 := by decide
  exact ⟨finished, settled finished, small, percentage small⟩

end Example

end Grader

end Rhythm
