import Rhythm.Proofs.Timing.Schedule

/-
This file follows chains of ties through a schedule. A tie only holds a note over into one that is
not tied itself, so that every note of a chain is tapped but the last one. The main statement is
`Score.schedule_chain`.
-/

namespace Rhythm

/-- An event sounds a pitch when it is a note of it. It may be tied or not, as given. -/
def Event.Sounds (event : Event) (pitch : Pitch) (tied : Bool) : Prop :=
  ∃ sound, event = .note sound ∧ sound.pitch = pitch ∧ sound.tied = tied

/-- A chain of ties has two or more notes of one pitch, of which all but the last one are tied. -/
structure TieChain (pitch : Pitch) (held : List Leaf) (last : Leaf) : Prop where
  nonempty : held ≠ []
  tied : ∀ leaf ∈ held, leaf.event.Sounds pitch true
  free : last.event.Sounds pitch false

/-- The taps at the positions of some leaves. -/
def tapsAt (taps : List Tap) (leaves : List Leaf) : List Tap :=
  taps.filter fun tap => decide (tap.position ∈ leaves.map Leaf.position)

/-- The time that has come when some leaves have been played. -/
def timeAfter (timing : Timing) (time : Float) (leaves : List Leaf) : Float :=
  leaves.foldl (fun time leaf => time + secondsOf leaf.beats timing.tempo) time

section Ties

variable {pitch : Pitch} {leaves : List Leaf} {index : Nat} {leaf previous : Leaf}

/-- A tied note is bound into a note of its pitch that is not tied. -/
theorem Event.Sounds.binds {first second : Event} (tied : first.Sounds pitch true)
    (free : second.Sounds pitch false) : first.Binds second := by
  obtain ⟨sound, rfl, rfl, firstTied⟩ := tied
  obtain ⟨next, rfl, same, secondFree⟩ := free
  exact ⟨sound, next, rfl, rfl, firstTied, secondFree, by rw [same], by rw [same], by rw [same]⟩

/-- Nothing is bound into a tied note, so it is tapped. -/
theorem tapped_of_tied (found : leaves[index]? = some leaf)
    (tied : leaf.event.Sounds pitch true) : Tapped leaves index := by
  obtain ⟨sound, event, -, flag⟩ := tied
  refine ⟨leaf, found, by rw [event]; rfl, ?_⟩
  intro before previous _ _ binds
  obtain ⟨_, next, -, same, -, free, -⟩ := binds
  cases event.symm.trans same
  rw [flag] at free
  cases free

/-- A leaf that the one before is bound into is not tapped. -/
theorem not_tapped_of_binds (found : leaves[index + 1]? = some leaf)
    (before : leaves[index]? = some previous) (binds : previous.event.Binds leaf.event) :
    ¬ Tapped leaves (index + 1) := by
  intro tapped
  obtain ⟨own, ownFound, -, free⟩ := tapped
  cases found.symm.trans ownFound
  exact free index previous rfl before binds

end Ties

section Chains

variable {score : Score} {timing : Timing} {start : Float} {pitch : Pitch}
  {before held after : List Leaf} {last : Leaf}

theorem Position.Before.ne {first second : Position} (before : first.Before second) :
    first ≠ second := by
  rintro rfl
  exact Position.Before.irrefl _ before

/-- The leaves of a part of a score have positions of their own. -/
theorem Score.position_not_mem (split : score.leaves = before ++ (held ++ after)) :
    (∀ leaf ∈ before, leaf.position ∉ held.map Leaf.position) ∧
      ∀ leaf ∈ after, leaf.position ∉ held.map Leaf.position := by
  have ordered := score.pairwise_leaves
  rw [split] at ordered
  obtain ⟨-, rest, early⟩ := List.pairwise_append.mp ordered
  obtain ⟨-, -, late⟩ := List.pairwise_append.mp rest
  constructor
  · intro leaf member shared
    obtain ⟨other, inHeld, same⟩ := List.mem_map.mp shared
    have order := early leaf member other (List.mem_append_left _ inHeld)
    exact order.ne same.symm
  · intro leaf member shared
    obtain ⟨other, inHeld, same⟩ := List.mem_map.mp shared
    exact (late other inHeld leaf member).ne same

/-- The taps of a part of a score are those of its tapped leaves. -/
theorem Score.tapsAt_schedule (split : score.leaves = before ++ (held ++ after)) :
    tapsAt (score.schedule timing start) held =
      ((held.zipIdx before.length).filter fun entry =>
        decide (Tapped score.leaves entry.2)).map fun entry =>
          ⟨entry.1.position,
            Window.around (score.center timing start entry.2) timing.lenienceSeconds⟩ := by
  obtain ⟨early, late⟩ := Score.position_not_mem split
  let tapped : Leaf × Nat → Bool := fun entry => decide (Tapped score.leaves entry.2)
  let within : Leaf × Nat → Bool := fun entry =>
    decide (entry.1.position ∈ held.map Leaf.position)
  have outside {part : List Leaf} (first : Nat)
      (apart : ∀ leaf ∈ part, leaf.position ∉ held.map Leaf.position) :
      ((part.zipIdx first).filter tapped).filter within = [] := by
    rw [List.filter_eq_nil_iff]
    intro entry member
    have inPart := List.fst_mem_of_mem_zipIdx (List.mem_filter.mp member).1
    simpa [within] using apart entry.1 inPart
  have inside : ((held.zipIdx before.length).filter tapped).filter within =
      (held.zipIdx before.length).filter tapped := by
    rw [List.filter_eq_self]
    intro entry member
    have inHeld := List.fst_mem_of_mem_zipIdx (List.mem_filter.mp member).1
    exact decide_eq_true (List.mem_map_of_mem inHeld)
  have entries : score.leaves.zipIdx = before.zipIdx ++
      (held.zipIdx before.length ++ after.zipIdx (before.length + held.length)) := by
    rw [split, List.zipIdx_append, List.zipIdx_append, Nat.zero_add]
  rw [tapsAt, score.schedule_eq, List.filter_map]
  change ((score.leaves.zipIdx.filter tapped).filter within).map _ = _
  rw [entries, List.filter_append, List.filter_append, List.filter_append, List.filter_append,
    outside 0 early, inside, outside _ late, List.nil_append, List.append_nil]

/-- The center after some leaves is the time at which they have been played. -/
theorem Score.center_add (split : score.leaves = before ++ (held ++ after)) :
    score.center timing start (before.length + held.length) =
      timeAfter timing (score.center timing start before.length) held := by
  induction held generalizing before with
  | nil => rfl
  | cons leaf rest inductionHypothesis =>
      have found : score.leaves[before.length]? = some leaf := by
        rw [split]
        simp
      have later := @inductionHypothesis (before ++ [leaf]) (by simpa using split)
      rw [List.length_append, List.length_singleton] at later
      rw [List.length_cons, Nat.add_comm rest.length, ← Nat.add_assoc, later,
        Score.center_succ found]
      rfl

/-- Every leaf of a chain is tapped but the last one. -/
theorem Score.tapped_of_chain (split : score.leaves = before ++ (held ++ [last] ++ after))
    (chain : TieChain pitch held last) :
    (∀ entry ∈ held.zipIdx before.length, Tapped score.leaves entry.2) ∧
      ¬ Tapped score.leaves (before.length + held.length) := by
  constructor
  · intro entry member
    have own := List.mem_zipIdx_iff_le_and_getElem?_sub.mp member
    have found : score.leaves[entry.2]? = some entry.1 := by
      rw [split, List.getElem?_append_right own.1, List.append_assoc]
      exact List.getElem?_append_left (List.getElem?_eq_some_iff.mp own.2).1 ▸ own.2
    exact tapped_of_tied found (chain.tied _ (List.fst_mem_of_mem_zipIdx member))
  · -- Only the leaf just before the last one can be bound into it.
    obtain ⟨front, previous, rfl⟩ := (List.eq_nil_or_concat held).resolve_left chain.nonempty
    have lastFound : score.leaves[before.length + front.length + 1]? = some last := by
      rw [split, Nat.add_assoc]
      simp
    have previousFound : score.leaves[before.length + front.length]? = some previous := by
      rw [split]
      simp
    rw [List.length_concat, ← Nat.add_assoc]
    exact not_tapped_of_binds lastFound previousFound
      ((chain.tied previous (by simp)).binds chain.free)

/-- A chain of ties is tapped once for every leaf but the last one. -/
theorem Score.tapsAt_of_chain (split : score.leaves = before ++ (held ++ [last] ++ after))
    (chain : TieChain pitch held last) :
    tapsAt (score.schedule timing start) (held ++ [last]) =
      (held.zipIdx before.length).map (fun entry => ⟨entry.1.position,
        Window.around (score.center timing start entry.2) timing.lenienceSeconds⟩) := by
  obtain ⟨tapped, free⟩ := Score.tapped_of_chain split chain
  rw [Score.tapsAt_schedule split, List.zipIdx_append, List.filter_append,
    List.filter_eq_self.mpr fun entry member => decide_eq_true (tapped entry member)]
  simp [free]

/-- A leaf is tapped, if at all, when the time of the leaves before it has come. -/
theorem Score.window_of_mem_tapsAt {leaf : Leaf} {tap : Tap}
    (split : score.leaves = before ++ ([leaf] ++ after))
    (member : tap ∈ tapsAt (score.schedule timing start) [leaf]) :
    tap.window =
      Window.around (score.center timing start before.length) timing.lenienceSeconds := by
  rw [Score.tapsAt_schedule split] at member
  obtain ⟨entry, chosen, rfl⟩ := List.mem_map.mp member
  have single := (List.mem_filter.mp chosen).1
  rw [List.zipIdx_singleton, List.mem_singleton] at single
  rw [single]

/-- A chain of ties is tapped once for every leaf but the last one. The time of all its leaves has
come when the next leaf is played. -/
theorem Score.schedule_chain (timing : Timing) (start : Float)
    (split : score.leaves = before ++ (held ++ [last] ++ after))
    (chain : TieChain pitch held last) :
    tapsAt (score.schedule timing start) (held ++ [last]) =
      (held.zipIdx before.length).map (fun entry => ⟨entry.1.position,
        Window.around (score.center timing start entry.2) timing.lenienceSeconds⟩) ∧
    (tapsAt (score.schedule timing start) (held ++ [last])).length = held.length ∧
    score.center timing start (before.length + (held.length + 1)) =
      timeAfter timing (score.center timing start before.length) (held ++ [last]) ∧
    ∀ next ∈ after.head?, ∀ tap ∈ tapsAt (score.schedule timing start) [next],
      tap.window = Window.around (timeAfter timing (score.center timing start before.length)
        (held ++ [last])) timing.lenienceSeconds := by
  have taps := @Score.tapsAt_of_chain score timing start _ _ _ _ _ split chain
  have elapsed : score.center timing start (before.length + (held.length + 1)) =
      timeAfter timing (score.center timing start before.length) (held ++ [last]) := by
    have all := @Score.center_add score timing start before (held ++ [last]) after split
    rwa [List.length_append, List.length_singleton] at all
  refine ⟨taps, by rw [taps, List.length_map, List.length_zipIdx], elapsed, ?_⟩
  intro next follows tap member
  obtain ⟨rest, rfl⟩ : ∃ rest, after = next :: rest := List.head?_eq_some_iff.mp follows
  have apart : score.leaves = (before ++ (held ++ [last])) ++ ([next] ++ rest) := by
    rw [split]
    simp
  rw [Score.window_of_mem_tapsAt apart member, ← elapsed, List.length_append, List.length_append,
    List.length_singleton]

end Chains

section Example

def Event.quarter (tied : Bool) : Event :=
  .note ⟨⟨1, by decide⟩, .middleC, tied, false⟩

/-- Two quarter notes fill a measure. -/
def Measure.quarters (first second : Bool) : Measure where
  meter := ⟨2, 4⟩
  elements := [.single (.quarter first), .single (.quarter second)]
  grouping := [2]
  wellformed := by
    refine ⟨⟨by decide, by decide, by decide⟩, List.cons_ne_nil _ _, by simp [AllFit], ?_,
      ⟨by decide, by decide, by decide⟩⟩
    revert first second
    decide +kernel

/-- Four notes are tied across a barline. -/
def Score.fourTied : Score :=
  [.quarters true true, .quarters true false]

def Leaf.quarter (index : Nat) (tied : Bool) : Leaf :=
  ⟨⟨index, none⟩, .quarter tied, 1⟩

theorem Score.fourTied_chain : TieChain .middleC
    [.quarter 0 true, .quarter 1 true, .quarter 2 true] (.quarter 3 false) := by
  have sounds (index : Nat) (tied : Bool) :
      (Leaf.quarter index tied).event.Sounds .middleC tied :=
    ⟨_, rfl, rfl, rfl⟩
  exact ⟨by decide, by simp [sounds], sounds 3 false⟩

/-- The chain of four notes makes up its whole score. -/
theorem Score.leaves_fourTied : fourTied.leaves =
    [] ++ ([.quarter 0 true, .quarter 1 true, .quarter 2 true] ++ [.quarter 3 false] ++ []) :=
  rfl

/-- The chain of four notes is tapped three times, and all four notes take their time. -/
theorem Score.schedule_chain_fourTied :
    TieChain .middleC [.quarter 0 true, .quarter 1 true, .quarter 2 true] (.quarter 3 false) ∧
    (tapsAt (fourTied.schedule ⟨60, 0⟩ 0) fourTied.leaves).length = 3 ∧
    fourTied.center ⟨60, 0⟩ 0 4 = 4 := by
  have chained := Score.schedule_chain ⟨60, 0⟩ 0 leaves_fourTied fourTied_chain
  refine ⟨fourTied_chain, chained.2.1, chained.2.2.1.trans ?_⟩
  decide +kernel

/-- A chain of ties is not always tapped once, at its first note, even if it has no other tied note
of its pitch before it. -/
theorem Score.not_schedule_chain_once :
    ¬ ∀ (score : Score) (pitch : Pitch) (before held after : List Leaf) (last : Leaf)
      (timing : Timing) (start : Float),
      score.leaves = before ++ (held ++ [last] ++ after) → TieChain pitch held last →
      (∀ leaf ∈ before.getLast?, ¬ leaf.event.Sounds pitch true) →
      ∃ first ∈ held.head?, ∃ window,
        tapsAt (score.schedule timing start) (held ++ [last]) = [⟨first.position, window⟩] := by
  intro once
  obtain ⟨first, -, window, taps⟩ :=
    once fourTied .middleC _ _ _ _ ⟨60, 0⟩ 0 leaves_fourTied fourTied_chain (by simp)
  have three : (tapsAt (fourTied.schedule ⟨60, 0⟩ 0) fourTied.leaves).length = 3 := by
    decide +kernel
  have one := congrArg List.length taps
  cases three.symm.trans one

end Example

end Rhythm
