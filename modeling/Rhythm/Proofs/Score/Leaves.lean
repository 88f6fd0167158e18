import Rhythm.Score.Walk
import Mathlib.Data.List.Basic

/-
This file flattens a score into its leaves and says which of them are tapped, without any flag that
is carried along. The main statements are `Score.walk_eq` and `Score.audibleCount_add_boundPairs`.
-/

namespace Rhythm

/-- A leaf is one event of a score, with its position and its real beats. -/
structure Leaf where
  position : Position
  event : Event
  beats : Float
  deriving DecidableEq

/-- The leaves of the element with the given index. A tuplet has one for each of its events. -/
def Element.leaves (index : Nat) : Element → List Leaf
  | single event => [⟨⟨index, none⟩, event, event.beats⟩]
  | group tuplet => tuplet.events.zipIdx.map fun entry =>
      ⟨⟨index, some entry.2⟩, entry.1, entry.1.beats * tuplet.scale⟩

/-- The leaves of elements, the first of which has the given index. -/
def leavesFrom (index : Nat) (elements : List Element) : List Leaf :=
  (elements.zipIdx index).flatMap fun entry => entry.1.leaves entry.2

/-- The leaves of a score in playing order. Tuplets and barlines leave no mark. -/
def Score.leaves (score : Score) : List Leaf :=
  leavesFrom 0 score.elements

/-- An event is bound into the next one when both are notes of the same letter, accidental and
octave, of which only the first one is tied. -/
def Event.Binds (first second : Event) : Prop :=
  ∃ sound next, first = .note sound ∧ second = .note next ∧ sound.tied = true ∧
    next.tied = false ∧ sound.pitch.letter = next.pitch.letter ∧
      sound.pitch.accidental = next.pitch.accidental ∧ sound.pitch.octave = next.pitch.octave

def Event.isNote (event : Event) : Bool :=
  event.note?.isSome

/-- The leaf at an index is tapped when it is a note and the leaf right before it is not bound into
it. -/
def Tapped (leaves : List Leaf) (index : Nat) : Prop :=
  ∃ leaf, leaves[index]? = some leaf ∧ leaf.event.isNote = true ∧
    ∀ before previous, index = before + 1 → leaves[before]? = some previous →
      ¬ previous.event.Binds leaf.event

section Ties

/-- The test for a tie finds the events that are bound into the next one. -/
theorem Event.tiedTo_iff {first second : Event} :
    first.tiedTo second = true ↔ first.Binds second := by
  cases first with
  | rest silence =>
      constructor
      · intro tied
        cases tied
      · intro binds
        obtain ⟨_, _, ⟨⟩, _⟩ := binds
  | note sound =>
      cases second with
      | rest silence =>
          constructor
          · intro tied
            cases tied
          · intro binds
            obtain ⟨_, _, _, ⟨⟩, _⟩ := binds
      | note next =>
          simp only [Event.tiedTo, Note.alike, Bool.and_eq_true, beq_iff_eq, Bool.not_eq_true']
          constructor
          · intro marks
            obtain ⟨⟨tied, same⟩, free⟩ := marks
            exact ⟨sound, next, rfl, rfl, tied, free, congrArg _ same, congrArg _ same,
              congrArg _ same⟩
          · intro binds
            obtain ⟨_, _, ⟨⟩, ⟨⟩, tied, free, letter, accidental, octave⟩ := binds
            have same : sound.pitch = next.pitch := by
              rcases sound with ⟨_, ⟨_, _, _⟩, _, _⟩
              rcases next with ⟨_, ⟨_, _, _⟩, _, _⟩
              simp only at letter accidental octave
              rw [letter, accidental, octave]
            exact ⟨⟨tied, same⟩, free⟩

instance (first second : Event) : Decidable (first.Binds second) :=
  decidable_of_iff _ Event.tiedTo_iff

/-- A note that is bound into the next one follows no note that is bound into it. -/
theorem Event.Binds.not_binds {first second third : Event} (early : first.Binds second) :
    ¬ second.Binds third := by
  obtain ⟨_, next, _, same, _, free, _⟩ := early
  intro late
  obtain ⟨sound, _, equation, _, tied, _⟩ := late
  cases same.symm.trans equation
  rw [free] at tied
  cases tied

end Ties

section Marks

/-- Whether the event before the next element, if there is one, is held over into it. -/
def heldInto (previous? : Option Event) (next? : Option Element) : Bool :=
  previous?.any fun previous => next?.any fun next => previous.tiedTo next.opening

/-- An event is struck when it is a note that the event before it is not held over into. -/
def struck (previous? : Option Event) (event : Event) : Bool :=
  event.isNote && !previous?.any fun previous => previous.tiedTo event

/-- The steps over some leaves, each marked by the event before it. -/
def marks : Option Event → List Leaf → List Step
  | _, [] => []
  | previous?, leaf :: rest =>
      ⟨leaf.position, leaf.beats, struck previous? leaf.event⟩ :: marks (some leaf.event) rest

/-- The last one of some members and what came before them does not change with the first one. -/
theorem getLast?_cons_or {A : Type} (previous? : Option A) (first : A) (rest : List A) :
    (first :: rest).getLast?.or previous? = rest.getLast?.or (some first) := by
  rw [List.getLast?_cons, Option.some_or, Option.or_some]

/-- The last one of some leaves, or what came before them. -/
def lastEvent? (previous? : Option Event) (leaves : List Leaf) : Option Event :=
  (leaves.getLast?.map Leaf.event).or previous?

/-- The marks of later leaves start from the last one before them. -/
theorem marks_append (previous? : Option Event) (first second : List Leaf) :
    marks previous? (first ++ second) =
      marks previous? first ++ marks (lastEvent? previous? first) second := by
  induction first generalizing previous? with
  | nil => rfl
  | cons leaf rest inductionHypothesis =>
      have last : lastEvent? previous? (leaf :: rest) = lastEvent? (some leaf.event) rest := by
        rw [lastEvent?, lastEvent?, ← List.getLast?_map, ← List.getLast?_map, List.map_cons]
        exact getLast?_cons_or previous? leaf.event _
      rw [List.cons_append, marks, marks, inductionHypothesis, last, List.cons_append]

/-- Nothing is held over into a rest. -/
theorem any_tiedTo_rest (previous? : Option Event) (silence : Rest) :
    (previous?.any fun previous => previous.tiedTo (.rest silence)) = false := by
  cases previous? with
  | none => rfl
  | some previous => cases previous <;> rfl

/-- A rest is not held over. -/
theorem heldInto_rest (silence : Rest) (next? : Option Element) :
    heldInto (some (.rest silence)) next? = false := by
  cases next? with
  | none => rfl
  | some next =>
      change (Event.rest silence).tiedTo next.opening = false
      cases next.opening <;> rfl

/-- A note that is held over is not tied, so that nothing is held over into the next one. -/
theorem heldInto_of_held {previous? : Option Event} {event : Event} (next? : Option Element)
    (held : (previous?.any fun previous => previous.tiedTo event) = true) :
    heldInto (some event) next? = false := by
  obtain ⟨previous, -, tied⟩ := (Option.any_eq_true _ _).mp held
  cases next? with
  | none => rfl
  | some next =>
      apply Bool.eq_false_iff.mpr
      intro again
      exact (Event.tiedTo_iff.mp tied).not_binds (Event.tiedTo_iff.mp again)

/-- The flag of the walk says whether the event before is held over into this one. The strike uses
it for this event and answers it for the next element. -/
theorem strike_eq (previous? : Option Event) (event : Event) (next? : Option Element) :
    strike (heldInto previous? (some (.single event))) event next? =
      (struck previous? event, heldInto (some event) next?) := by
  have before : heldInto previous? (some (.single event)) =
      previous?.any fun previous => previous.tiedTo event := rfl
  rw [before]
  cases event with
  | rest silence =>
      rw [strike, any_tiedTo_rest, heldInto_rest]
      rfl
  | note sound =>
      have passed : next?.any (Element.single (.note sound)).tiedTo =
          heldInto (some (.note sound)) next? := rfl
      rw [strike, passed]
      apply Prod.ext
      · rfl
      · cases held : previous?.any fun previous => previous.tiedTo (.note sound) with
        | false => rfl
        | true => exact (heldInto_of_held next? held).symm

/-- The walk through a tuplet marks its events and passes on whether the last one of them is held
over into the next element. -/
theorem Tuplet.walk_eq (scale : Float) (element : Nat) (next? : Option Element)
    (previous? : Option Event) (inner : Nat) (events : List Event) :
    Tuplet.walk scale element next? inner
        (heldInto previous? ((events.head?.map .single).or next?)) events =
      (marks previous? ((events.zipIdx inner).map fun entry =>
          ⟨⟨element, some entry.2⟩, entry.1, entry.1.beats * scale⟩),
        heldInto (events.getLast?.or previous?) next?) := by
  induction events generalizing inner previous? with
  | nil => rfl
  | cons event rest inductionHypothesis =>
      have first : ((event :: rest).head?.map Element.single).or next? =
          some (.single event) := rfl
      rw [first, Tuplet.walk, strike_eq]
      dsimp only
      rw [inductionHypothesis, getLast?_cons_or]
      rfl

/-- The walk marks the leaves from the given element on. -/
theorem walkFrom_eq (index : Nat) (previous? : Option Event) (elements : List Element) :
    Score.walkFrom index (heldInto previous? elements.head?) elements =
      marks previous? (leavesFrom index elements) := by
  induction elements generalizing index previous? with
  | nil => rfl
  | cons element rest inductionHypothesis =>
      have leaves : leavesFrom index (element :: rest) =
          element.leaves index ++ leavesFrom (index + 1) rest := rfl
      rw [leaves, marks_append]
      cases element with
      | single event =>
          rw [List.head?_cons, Score.walkFrom, strike_eq]
          dsimp only
          rw [inductionHypothesis]
          rfl
      | group tuplet =>
          -- The walk looks for the next element, and the marks look for the next event. The two
          -- differ at the ends of a tuplet only.
          have first : (tuplet.events.head?.map Element.single).or rest.head? =
              some (.single tuplet.first) := by
            rw [List.head?_eq_some_head tuplet.events_ne]
            rfl
          have opening : heldInto previous? (some (.group tuplet)) =
              heldInto previous? ((tuplet.events.head?.map .single).or rest.head?) := by
            rw [first]
            rfl
          have last : lastEvent? previous? ((Element.group tuplet).leaves index) =
              tuplet.events.getLast?.or previous? := by
            rw [lastEvent?, ← List.getLast?_map, Element.leaves, List.map_map]
            change ((tuplet.events.zipIdx.map Prod.fst).getLast?.or previous?) = _
            rw [List.zipIdx_map_fst]
          rw [List.head?_cons, opening, Score.walkFrom, Tuplet.walk_eq]
          dsimp only
          rw [inductionHypothesis, last]
          rfl

end Marks

section Walk

variable {leaves : List Leaf} {index : Nat}

/-- The walk marks the leaves of the score, before which nothing was played. -/
theorem Score.walk_eq_marks (score : Score) : score.walk = marks none score.leaves :=
  walkFrom_eq 0 none score.elements

/-- The event before the leaf at an index, the first one of which follows the given event. -/
def eventBefore? (previous? : Option Event) (leaves : List Leaf) : Nat → Option Event
  | 0 => previous?
  | before + 1 => leaves[before]?.map Leaf.event

/-- Each leaf has its own step, which is marked by the event before it. -/
theorem getElem?_marks (previous? : Option Event) (leaves : List Leaf) (index : Nat) :
    (marks previous? leaves)[index]? = leaves[index]?.map fun leaf =>
      ⟨leaf.position, leaf.beats, struck (eventBefore? previous? leaves index) leaf.event⟩ := by
  induction leaves generalizing previous? index with
  | nil => rfl
  | cons leaf rest inductionHypothesis =>
      cases index with
      | zero => rfl
      | succ index =>
          have before : eventBefore? (some leaf.event) rest index =
              eventBefore? previous? (leaf :: rest) (index + 1) := by
            cases index <;> rfl
          rw [marks, List.getElem?_cons_succ, inductionHypothesis, before, List.getElem?_cons_succ]

/-- A leaf is tapped when it is struck after the leaf right before it. -/
theorem tapped_iff_struck : Tapped leaves index ↔
    (leaves[index]?.any fun leaf =>
      struck (eventBefore? none leaves index) leaf.event) = true := by
  simp only [Option.any_eq_true, struck, Bool.and_eq_true, Bool.not_eq_true', Tapped]
  apply exists_congr
  intro leaf
  apply and_congr_right
  intro _
  apply and_congr_right
  intro _
  cases index with
  | zero => simp [eventBefore?]
  | succ before =>
      rw [eventBefore?, Bool.eq_false_iff]
      constructor
      · intro free held
        obtain ⟨event, chosen, tied⟩ := (Option.any_eq_true _ _).mp held
        obtain ⟨previous, found, rfl⟩ := Option.map_eq_some_iff.mp chosen
        exact free before previous rfl found (Event.tiedTo_iff.mp tied)
      · intro free other previous same found binds
        cases same
        rw [found] at free
        exact free (Event.tiedTo_iff.mpr binds)

instance (leaves : List Leaf) (index : Nat) : Decidable (Tapped leaves index) :=
  decidable_of_iff _ tapped_iff_struck.symm

/-- The walk has one step for each leaf, and marks the leaves that are tapped. -/
theorem Score.walk_eq (score : Score) : score.walk = score.leaves.zipIdx.map fun entry =>
    ⟨entry.1.position, entry.1.beats, decide (Tapped score.leaves entry.2)⟩ := by
  rw [score.walk_eq_marks]
  apply List.ext_getElem?
  intro index
  rw [getElem?_marks, List.getElem?_map, List.getElem?_zipIdx, Nat.zero_add, Option.map_map]
  cases found : score.leaves[index]? with
  | none => rfl
  | some leaf =>
      have mark : struck (eventBefore? none score.leaves index) leaf.event =
          decide (Tapped score.leaves index) := by
        rw [Bool.eq_iff_iff, decide_eq_true_iff, tapped_iff_struck, found]
        rfl
      rw [Option.map_some, Option.map_some, mark]
      rfl

end Walk

section Count

/-- The number of adjacent leaves of which the first one is bound into the second one. -/
def boundPairs (leaves : List Leaf) : Nat :=
  (leaves.zip leaves.tail).countP fun pair => decide (pair.1.event.Binds pair.2.event)

/-- A note is either struck or held over from the event before it. -/
theorem struck_add_held (previous? : Option Event) (event : Event) :
    (struck previous? event).toNat +
      (previous?.any fun previous => previous.tiedTo event).toNat = event.isNote.toNat := by
  cases event with
  | rest silence =>
      rw [struck, any_tiedTo_rest]
      rfl
  | note sound =>
      unfold struck
      cases previous?.any fun previous => previous.tiedTo (.note sound) <;> rfl

/-- The first member adds one to a count if it passes the test. -/
theorem countP_cons_toNat {A : Type} (test : A → Bool) (first : A) (rest : List A) :
    (first :: rest).countP test = rest.countP test + (test first).toNat := by
  rw [List.countP_cons]
  cases test first <;> rfl

/-- The first two leaves add one pair if they are bound. -/
theorem boundPairs_cons_cons (first second : Leaf) (rest : List Leaf) :
    boundPairs (first :: second :: rest) =
      boundPairs (second :: rest) + (first.event.tiedTo second.event).toNat := by
  have test : decide (first.event.Binds second.event) = first.event.tiedTo second.event := by
    rw [Bool.eq_iff_iff, decide_eq_true_iff, Event.tiedTo_iff]
  rw [← test]
  exact countP_cons_toNat _ (first, second) _

/-- Among the leaves after an event each note is either tapped or bound to from the one before. -/
theorem countP_marks (previous? : Option Event) (leaf : Leaf) (rest : List Leaf) :
    (marks previous? (leaf :: rest)).countP Step.tapped +
        ((previous?.any fun previous => previous.tiedTo leaf.event).toNat +
          boundPairs (leaf :: rest)) =
      (leaf :: rest).countP fun leaf => leaf.event.isNote := by
  induction rest generalizing previous? leaf with
  | nil =>
      have own := struck_add_held previous? leaf.event
      have alone : boundPairs [leaf] = 0 := rfl
      rw [marks, countP_cons_toNat, countP_cons_toNat, alone, marks, List.countP_nil,
        List.countP_nil]
      dsimp only
      omega
  | cons second rest inductionHypothesis =>
      have own := struck_add_held previous? leaf.event
      have later := inductionHypothesis (some leaf.event) second
      rw [Option.any_some] at later
      rw [marks, countP_cons_toNat, countP_cons_toNat, boundPairs_cons_cons]
      dsimp only
      omega

/-- Every note leaf is tapped unless it closes a tie. -/
theorem Score.audibleCount_add_boundPairs (score : Score) :
    score.audibleCount + boundPairs score.leaves =
      score.leaves.countP fun leaf => leaf.event.isNote := by
  rw [Score.audibleCount, score.walk_eq_marks]
  cases score.leaves with
  | nil => rfl
  | cons leaf rest =>
      have counted := countP_marks none leaf rest
      rw [Option.any_none, Bool.toNat_false, Nat.zero_add] at counted
      exact counted

end Count

end Rhythm
