import Rhythm.Proofs.Score.Leaves
import Rhythm.Timing.Schedule

/-
This file lays the leaves of a score out in time, independently of the walk. The main statements are
`Score.taps_exact` and `Score.windows_exact`.
-/

namespace Rhythm

/-- A position comes before another one when its element does, or when both lie in one tuplet and
its event comes first. -/
def Position.Before (first second : Position) : Prop :=
  first.element < second.element ∨ first.element = second.element ∧
    ∃ inner later, first.inner = some inner ∧ second.inner = some later ∧ inner < later

/-- The event at a position. Only positions in tuplets name an event inside their element. -/
def Score.eventAt? (score : Score) (position : Position) : Option Event :=
  match score.elements[position.element]?, position.inner with
  | some (.single event), none => some event
  | some (.group tuplet), some inner => tuplet.events[inner]?
  | _, _ => none

/-- The seconds that the event at a position takes, as its element or its tuplet reports them. -/
def Score.secondsAt? (score : Score) (position : Position) (tempo : Float) : Option Float :=
  match score.elements[position.element]?, position.inner with
  | some (.single event), none => some ((Element.single event).seconds tempo)
  | some (.group tuplet), some inner => tuplet.realSeconds? inner tempo
  | _, _ => none

/-- The centers of the leaves. The first one lies one half width after the start, and every leaf
moves the next center by the seconds that it takes. -/
def Score.center (score : Score) (timing : Timing) (start : Float) : Nat → Float
  | 0 => start + timing.lenienceSeconds
  | index + 1 => score.center timing start index +
      ((score.leaves[index]?.bind fun leaf =>
        score.secondsAt? leaf.position timing.tempo).getD 0)

section Positions

variable {score : Score} {leaf : Leaf}

theorem Position.Before.irrefl (position : Position) : ¬ position.Before position := by
  intro before
  obtain element | ⟨-, inner, later, own, same, less⟩ := before
  · exact Nat.lt_irrefl _ element
  · cases own.symm.trans same
    exact Nat.lt_irrefl _ less

/-- Numbered entries come in the order of their numbers. -/
theorem pairwise_zipIdx {A : Type} (entries : List A) :
    entries.zipIdx.Pairwise fun first second => first.2 < second.2 := by
  rw [← List.pairwise_map, List.zipIdx_map_snd]
  exact List.pairwise_lt_range'

/-- The leaves of an element lie in it, from the first to the last. -/
theorem Element.pairwise_leaves (element : Element) (index : Nat) :
    (∀ leaf ∈ element.leaves index, leaf.position.element = index) ∧
      (element.leaves index).Pairwise fun first second =>
        first.position.Before second.position := by
  cases element with
  | single event =>
      constructor
      · intro leaf member
        rw [List.mem_singleton.mp member]
      · exact List.pairwise_singleton _ _
  | group tuplet =>
      constructor
      · intro leaf member
        obtain ⟨entry, -, rfl⟩ := List.mem_map.mp member
        rfl
      · rw [Element.leaves, List.pairwise_map]
        exact (pairwise_zipIdx tuplet.events).imp fun less =>
          Or.inr ⟨rfl, _, _, rfl, rfl, less⟩

/-- Leaves lie at or after the first element, from the first to the last. -/
theorem pairwise_leavesFrom (index : Nat) (elements : List Element) :
    (∀ leaf ∈ leavesFrom index elements, index ≤ leaf.position.element) ∧
      (leavesFrom index elements).Pairwise fun first second =>
        first.position.Before second.position := by
  induction elements generalizing index with
  | nil => exact ⟨by simp [leavesFrom], List.Pairwise.nil⟩
  | cons element rest inductionHypothesis =>
      obtain ⟨own, ordered⟩ := element.pairwise_leaves index
      obtain ⟨later, restOrdered⟩ := inductionHypothesis (index + 1)
      have leaves : leavesFrom index (element :: rest) =
          element.leaves index ++ leavesFrom (index + 1) rest := rfl
      rw [leaves]
      constructor
      · intro leaf member
        obtain inElement | inRest := List.mem_append.mp member
        · exact Nat.le_of_eq (own leaf inElement).symm
        · exact Nat.le_trans (Nat.le_succ index) (later leaf inRest)
      · apply List.pairwise_append.mpr
        refine ⟨ordered, restOrdered, ?_⟩
        intro first inElement second inRest
        apply Or.inl
        rw [own first inElement]
        exact later second inRest

/-- The leaves of a score come in playing order. -/
theorem Score.pairwise_leaves (score : Score) : score.leaves.Pairwise fun first second =>
    first.position.Before second.position :=
  (pairwise_leavesFrom 0 score.elements).2

/-- A leaf has the event and the seconds at its position. -/
theorem Score.at_of_mem_leaves (member : leaf ∈ score.leaves) (tempo : Float) :
    score.eventAt? leaf.position = some leaf.event ∧
      score.secondsAt? leaf.position tempo = some (secondsOf leaf.beats tempo) := by
  obtain ⟨⟨element, index⟩, chosen, inside⟩ := List.mem_flatMap.mp member
  have found : score.elements[index]? = some element := List.mem_zipIdx_iff_getElem?.mp chosen
  cases element with
  | single event =>
      rw [List.mem_singleton.mp inside]
      constructor
      · simp only [Score.eventAt?, found]
      · simp only [Score.secondsAt?, found]
        rfl
  | group tuplet =>
      obtain ⟨⟨event, inner⟩, entry, rfl⟩ := List.mem_map.mp inside
      have own : tuplet.events[inner]? = some event := List.mem_zipIdx_iff_getElem?.mp entry
      constructor
      · simp only [Score.eventAt?, found, own]
      · simp only [Score.secondsAt?, found, Tuplet.realSeconds?, Tuplet.realBeats?, own]
        rfl

end Positions

section Taps

variable {score : Score} {timing : Timing} {start : Float}

/-- A leaf moves the next center by the seconds of its real beats. -/
theorem Score.center_succ {index : Nat} {leaf : Leaf} (found : score.leaves[index]? = some leaf) :
    score.center timing start (index + 1) =
      score.center timing start index + secondsOf leaf.beats timing.tempo := by
  have seconds := (score.at_of_mem_leaves (List.mem_of_getElem? found) timing.tempo).2
  rw [Score.center, found, Option.bind_some, seconds, Option.getD_some]

/-- The taps over some entries stand around centers that move by the seconds of every entry,
whether it is tapped or not. -/
theorem tapsFrom_map {A : Type} (mark : A × Nat → Step) (center : Nat → Float) (first : Nat)
    (inputs : List A) (moves : ∀ entry ∈ inputs.zipIdx first,
      center (entry.2 + 1) = center entry.2 + secondsOf (mark entry).beats timing.tempo) :
    tapsFrom timing (center first) ((inputs.zipIdx first).map mark) =
      ((inputs.zipIdx first).filter fun entry => (mark entry).tapped).map fun entry =>
        ⟨(mark entry).position, Window.around (center entry.2) timing.lenienceSeconds⟩ := by
  induction inputs generalizing first with
  | nil => rfl
  | cons input rest inductionHypothesis =>
      rw [List.zipIdx_cons] at moves ⊢
      have own := moves (input, first) List.mem_cons_self
      have later := inductionHypothesis (first + 1) fun entry member =>
        moves entry (List.mem_cons_of_mem _ member)
      rw [List.map_cons, tapsFrom, ← own, later, List.filter_cons]
      split
      case isTrue => rfl
      case isFalse => rfl

/-- The schedule has one tap for each tapped leaf, in playing order. -/
theorem Score.schedule_eq (score : Score) (timing : Timing) (start : Float) :
    score.schedule timing start =
      (score.leaves.zipIdx.filter fun entry => decide (Tapped score.leaves entry.2)).map
        fun entry => ⟨entry.1.position,
          Window.around (score.center timing start entry.2) timing.lenienceSeconds⟩ := by
  have walked := @tapsFrom_map timing Leaf
    (fun entry => ⟨entry.1.position, entry.1.beats, decide (Tapped score.leaves entry.2)⟩)
    (score.center timing start) 0 score.leaves fun entry member =>
      Score.center_succ (List.mem_zipIdx_iff_getElem?.mp member)
  rw [Score.schedule, score.walk_eq]
  exact walked

/-- The schedule names the positions of the tapped steps. -/
theorem Score.map_position_schedule (score : Score) (timing : Timing) (start : Float) :
    (score.schedule timing start).map Tap.position =
      (score.walk.filter Step.tapped).map Step.position := by
  rw [score.schedule_eq, score.walk_eq, List.filter_map, List.map_map, List.map_map]
  rfl

/-- The schedule has as many taps as the walk counts. -/
theorem Score.length_schedule (score : Score) (timing : Timing) (start : Float) :
    (score.schedule timing start).length = score.audibleCount := by
  have positions := congrArg List.length (score.map_position_schedule timing start)
  rw [List.length_map, List.length_map] at positions
  rw [positions, Score.audibleCount, List.countP_eq_length_filter]

/-- The last audible position is that of the last tap. -/
theorem Score.lastAudible?_eq (score : Score) (timing : Timing) (start : Float) :
    score.lastAudible? = (score.schedule timing start).getLast?.map Tap.position := by
  rw [← List.getLast?_map, score.map_position_schedule, List.getLast?_map, List.getLast?_filter]
  rfl

/-- A leaf of a score is tapped when it is a note that the leaf right before it is not bound into.
The walk marks exactly these leaves, whatever tuplets and barlines lie between them. The schedule,
the windows, the count and the last position follow the same leaves, for any timing and start. -/
theorem Score.taps_exact (score : Score) (timing : Timing) (start : Float) :
    score.walk = score.leaves.zipIdx.map (fun entry =>
      ⟨entry.1.position, entry.1.beats, decide (Tapped score.leaves entry.2)⟩) ∧
    (score.schedule timing start).length = score.audibleCount ∧
    (score.windows timing start).length = score.audibleCount ∧
    score.audibleCount + boundPairs score.leaves =
      score.leaves.countP (fun leaf => leaf.event.isNote) ∧
    (score.schedule timing start).map Tap.position =
      (score.leaves.zipIdx.filter fun entry => decide (Tapped score.leaves entry.2)).map
        (fun entry => entry.1.position) ∧
    score.lastAudible? = (score.schedule timing start).getLast?.map Tap.position ∧
    (score.lastAudible? = none ↔ score.schedule timing start = []) := by
  refine ⟨score.walk_eq, score.length_schedule timing start, ?_,
    score.audibleCount_add_boundPairs, ?_, score.lastAudible?_eq timing start, ?_⟩
  · rw [Score.windows, List.length_map, score.length_schedule]
  · rw [score.schedule_eq, List.map_map]
    rfl
  · rw [score.lastAudible?_eq timing start, Option.map_eq_none_iff, List.getLast?_eq_none_iff]

end Taps

section Windows

variable {score other : Score} {timing : Timing} {start : Float}

/-- A tap stands for a tapped leaf. -/
theorem Score.exists_of_mem_schedule {tap : Tap} (member : tap ∈ score.schedule timing start) :
    ∃ index leaf, score.leaves[index]? = some leaf ∧ Tapped score.leaves index ∧
      tap = ⟨leaf.position,
        Window.around (score.center timing start index) timing.lenienceSeconds⟩ := by
  rw [score.schedule_eq] at member
  obtain ⟨⟨leaf, index⟩, chosen, rfl⟩ := List.mem_map.mp member
  obtain ⟨entry, tapped⟩ := List.mem_filter.mp chosen
  exact ⟨index, leaf, List.mem_zipIdx_iff_getElem?.mp entry, of_decide_eq_true tapped, rfl⟩

/-- The taps come in playing order. -/
theorem Score.pairwise_schedule (score : Score) (timing : Timing) (start : Float) :
    ((score.schedule timing start).map Tap.position).Pairwise Position.Before := by
  have leaves : (score.leaves.zipIdx.map Prod.fst).Pairwise fun first second =>
      first.position.Before second.position := by
    rw [List.zipIdx_map_fst]
    exact score.pairwise_leaves
  rw [score.schedule_eq, List.map_map, List.pairwise_map]
  exact (List.pairwise_map.mp leaves).filter _

/-- A leaf comes before another one when its index does. -/
theorem Score.before_of_lt {first second : Nat} {firstLeaf secondLeaf : Leaf}
    (firstFound : score.leaves[first]? = some firstLeaf)
    (secondFound : score.leaves[second]? = some secondLeaf) (less : first < second) :
    firstLeaf.position.Before secondLeaf.position := by
  obtain ⟨firstInside, rfl⟩ := List.getElem?_eq_some_iff.mp firstFound
  obtain ⟨secondInside, rfl⟩ := List.getElem?_eq_some_iff.mp secondFound
  exact List.pairwise_iff_getElem.mp score.pairwise_leaves _ _ firstInside secondInside less

/-- No two leaves have the same position. -/
theorem Score.index_eq_of_position_eq {first second : Nat} {firstLeaf secondLeaf : Leaf}
    (firstFound : score.leaves[first]? = some firstLeaf)
    (secondFound : score.leaves[second]? = some secondLeaf)
    (same : firstLeaf.position = secondLeaf.position) : first = second := by
  obtain less | equal | greater := Nat.lt_trichotomy first second
  · have before := Score.before_of_lt firstFound secondFound less
    rw [same] at before
    exact absurd before (Position.Before.irrefl _)
  · exact equal
  · have before := Score.before_of_lt secondFound firstFound greater
    rw [same] at before
    exact absurd before (Position.Before.irrefl _)

/-- The centers only depend on the real beats of the leaves. -/
theorem Score.center_congr (same : score.leaves.map Leaf.beats = other.leaves.map Leaf.beats)
    {index : Nat} (inside : index ≤ score.leaves.length) :
    score.center timing start index = other.center timing start index := by
  induction index with
  | zero => rfl
  | succ index inductionHypothesis =>
      have found := List.getElem?_eq_getElem (Nat.lt_of_succ_le inside)
      have both := congrArg (fun beats => beats[index]?) same
      rw [List.getElem?_map, List.getElem?_map, found, Option.map_some] at both
      obtain ⟨otherLeaf, otherFound, beats⟩ := Option.map_eq_some_iff.mp both.symm
      rw [Score.center_succ found, Score.center_succ otherFound, beats,
        inductionHypothesis (Nat.le_of_succ_le inside)]

/-- Scores with the same leaves in time share the windows of the positions that both of them tap. -/
theorem Score.window_eq_of_position_eq
    (same : score.leaves.map (fun leaf => (leaf.position, leaf.beats)) =
      other.leaves.map (fun leaf => (leaf.position, leaf.beats)))
    {tap otherTap : Tap} (member : tap ∈ score.schedule timing start)
    (otherMember : otherTap ∈ other.schedule timing start)
    (position : tap.position = otherTap.position) : tap.window = otherTap.window := by
  obtain ⟨index, leaf, found, -, rfl⟩ := Score.exists_of_mem_schedule member
  obtain ⟨otherIndex, otherLeaf, otherFound, -, rfl⟩ := Score.exists_of_mem_schedule otherMember
  have beats : score.leaves.map Leaf.beats = other.leaves.map Leaf.beats := by
    have second := congrArg (List.map Prod.snd) same
    rw [List.map_map, List.map_map] at second
    exact second
  have both := congrArg (fun pairs => pairs[index]?) same
  rw [List.getElem?_map, List.getElem?_map, found, Option.map_some] at both
  obtain ⟨twin, twinFound, twinSame⟩ := Option.map_eq_some_iff.mp both.symm
  have indices : index = otherIndex :=
    Score.index_eq_of_position_eq twinFound otherFound
      ((congrArg Prod.fst twinSame).trans position)
  subst indices
  have inside := (List.getElem?_eq_some_iff.mp found).1
  rw [Score.center_congr beats (Nat.le_of_lt inside)]

/-- The taps come in playing order at the positions of notes. The window of a tapped leaf stands
around a center that starts one half width after the start and moves by the seconds of every leaf
before it, tapped or not. Hence scores whose leaves have the same positions and real beats share the
windows of all positions that both of them tap. -/
theorem Score.windows_exact (score : Score) (timing : Timing) (start : Float) :
    ((score.schedule timing start).map Tap.position).Pairwise Position.Before ∧
    ((score.schedule timing start).map Tap.position).Nodup ∧
    (∀ tap ∈ score.schedule timing start,
      ∃ note, score.eventAt? tap.position = some (.note note)) ∧
    score.schedule timing start =
      (score.leaves.zipIdx.filter fun entry => decide (Tapped score.leaves entry.2)).map
        (fun entry => ⟨entry.1.position,
          Window.around (score.center timing start entry.2) timing.lenienceSeconds⟩) ∧
    score.center timing start 0 = start + timing.lenienceSeconds ∧
    (∀ index leaf, score.leaves[index]? = some leaf → ∃ seconds,
      score.secondsAt? leaf.position timing.tempo = some seconds ∧
        score.center timing start (index + 1) = score.center timing start index + seconds) ∧
    (∀ other : Score,
      score.leaves.map (fun leaf => (leaf.position, leaf.beats)) =
        other.leaves.map (fun leaf => (leaf.position, leaf.beats)) →
      ∀ tap ∈ score.schedule timing start, ∀ otherTap ∈ other.schedule timing start,
        tap.position = otherTap.position → tap.window = otherTap.window) := by
  have ordered := score.pairwise_schedule timing start
  refine ⟨ordered, ?_, ?_, score.schedule_eq timing start, rfl, ?_, ?_⟩
  · apply ordered.imp
    intro first second before same
    rw [same] at before
    exact Position.Before.irrefl second before
  · intro tap member
    obtain ⟨index, leaf, found, ⟨own, ownFound, isNote, -⟩, rfl⟩ :=
      Score.exists_of_mem_schedule member
    rw [found] at ownFound
    cases ownFound
    have event := (score.at_of_mem_leaves (List.mem_of_getElem? found) timing.tempo).1
    rw [event]
    cases sort : leaf.event with
    | note sound => exact ⟨sound, rfl⟩
    | rest silence =>
        rw [sort] at isNote
        cases isNote
  · intro index leaf found
    exact ⟨_, (score.at_of_mem_leaves (List.mem_of_getElem? found) timing.tempo).2,
      Score.center_succ found⟩
  · intro other same tap member otherTap otherMember position
    exact Score.window_eq_of_position_eq same member otherMember position

end Windows

end Rhythm
