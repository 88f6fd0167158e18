import Rhythm.Score

/-
This file walks through a score and finds the notes to be tapped. A note is tapped unless the
note before it is held over into it.
-/

namespace Rhythm

/-- A position names an element of a score, and an event inside it if it is a tuplet. -/
structure Position where
  element : Nat
  inner : Option Nat
  deriving DecidableEq

/-- A step of the walk is one event with its real beats. -/
structure Step where
  position : Position
  beats : Float
  tapped : Bool
  deriving DecidableEq

/-- An event is tapped if it is a note that nothing is held over into. The second answer says
whether this event is held over into the next element. A rest leaves that as it was. -/
def strike (held : Bool) (event : Event) (next : Option Element) : Bool × Bool :=
  match event with
  | .rest _ => (false, held)
  | .note _ => (!held, !held && next.any (Element.single event).tiedTo)

/-- The walk goes through the events of a tuplet. The last one is followed by the next element. -/
def Tuplet.walk (scale : Float) (element : Nat) (next : Option Element) :
    Nat → Bool → List Event → List Step × Bool
  | _, held, [] => ([], held)
  | inner, held, event :: rest =>
      let following := (rest.head?.map Element.single).or next
      let (tapped, heldOver) := strike held event following
      let (steps, last) := Tuplet.walk scale element next (inner + 1) heldOver rest
      (⟨⟨element, some inner⟩, event.beats * scale, tapped⟩ :: steps, last)

namespace Score

/-- The walk goes through elements, the first of which has the given index. -/
def walkFrom : Nat → Bool → List Element → List Step
  | _, _, [] => []
  | index, held, .single event :: rest =>
      let (tapped, heldOver) := strike held event rest.head?
      ⟨⟨index, none⟩, event.beats, tapped⟩ :: walkFrom (index + 1) heldOver rest
  | index, held, .group tuplet :: rest =>
      let (steps, heldOver) := tuplet.events |> Tuplet.walk tuplet.scale index rest.head? 0 held
      steps ++ walkFrom (index + 1) heldOver rest

def walk (score : Score) : List Step :=
  walkFrom 0 false score.elements

/-- The number of taps that a score asks for. -/
def audibleCount (score : Score) : Nat :=
  (walk score).countP Step.tapped

/-- The position of the last note to be tapped. -/
def lastAudible? (score : Score) : Option Position :=
  ((walk score).reverse.find? Step.tapped).map Step.position

end Score

end Rhythm
