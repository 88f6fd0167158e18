import Rhythm.Event

/-
This file holds the elements of a measure: single events and tuplets of events.
-/

namespace Rhythm

/-- The largest power of two that does not exceed a positive number. -/
def floorPower (number : UInt32) : UInt32 :=
  UInt32.ofNat (Nat.pow 2 number.toNat.log2)

/-- The real beats that one written beat of a tuplet takes. In a compound meter an even number of
divisions fills three beats. All other tuplets fill a power of two. -/
def tupletScale (compound : Bool) (divisions : UInt32) : Float :=
  if compound && divisions % 2 == 0 then 3 / divisions.toFloat
  else (floorPower divisions).toFloat / divisions.toFloat

/-- A tuplet squeezes its events into the time of a simpler division. -/
structure Tuplet where
  divisions : UInt32
  events : List Event
  scale : Float
  divisions_pos : 0 < divisions
  events_ne : events ≠ []
  scale_eq : ∃ compound, scale = tupletScale compound divisions
  deriving DecidableEq

namespace Tuplet

/-- The real beats of a whole tuplet. -/
def beats (tuplet : Tuplet) : Float :=
  totalBeats (tuplet.events.map Event.beats) * tuplet.scale

/-- The real beats of the event at an index. -/
def realBeats? (tuplet : Tuplet) (index : Nat) : Option Float :=
  tuplet.events[index]?.map fun event => event.beats * tuplet.scale

/-- The seconds that the event at an index takes. -/
def realSeconds? (tuplet : Tuplet) (index : Nat) (tempo : Float) : Option Float :=
  (tuplet.realBeats? index).map fun beats => secondsOf beats tempo

def first (tuplet : Tuplet) : Event :=
  tuplet.events.head tuplet.events_ne

def last (tuplet : Tuplet) : Event :=
  tuplet.events.getLast tuplet.events_ne

/-- A tuplet fits a meter that gives it the scale that it has. -/
def fits (tuplet : Tuplet) (meter : Meter) : Bool :=
  tuplet.scale == tupletScale meter.isCompound tuplet.divisions

/-- Two tuplets are alike when their divisions, events, scales and beats are. -/
def alike (first second : Tuplet) : Bool :=
  first.divisions == second.divisions && first.events.isEqv second.events Event.alike &&
    first.scale == second.scale && first.beats == second.beats

end Tuplet

/-- An element of a measure is a single event or a tuplet. -/
inductive Element where
  | single (event : Event)
  | group (tuplet : Tuplet)
  deriving DecidableEq

namespace Element

def beats : Element → Float
  | single event => event.beats
  | group tuplet => tuplet.beats

def seconds (element : Element) (tempo : Float) : Float :=
  secondsOf element.beats tempo

def note? : Element → Option Note
  | single event => event.note?
  | group _ => none

def isRest : Element → Bool
  | single (.rest _) => true
  | _ => false

/-- Two elements are alike when they are of one kind and alike in it. -/
def alike : Element → Element → Bool
  | single first, single second => first.alike second
  | group first, group second => first.alike second
  | _, _ => false

/-- The event that an element starts with. -/
def opening : Element → Event
  | single event => event
  | group tuplet => tuplet.first

/-- The event that an element ends with. -/
def closing : Element → Event
  | single event => event
  | group tuplet => tuplet.last

/-- Two elements are tied when the last event of the first one is tied to the first event of the
second one. -/
def tiedTo (first second : Element) : Bool :=
  first.closing.tiedTo second.opening

/-- The events of some elements, none of which is a tuplet. -/
def singles? : List Element → Option (List Event)
  | [] => some []
  | single event :: rest => (singles? rest).map (event :: ·)
  | group _ :: _ => none

end Element

/-- A tuplet is made for measures of one meter. -/
def Tuplet.of (divisions : UInt32) (elements : List Element) (meter : Meter) :
    Except Fault Tuplet := do
  let ⟨divided⟩ ← Fault.require (0 < divisions) .noDivisions
  match Element.singles? elements with
  | none => throw .nestedTuplet
  | some events =>
      let ⟨nonempty⟩ ← Fault.require (events ≠ []) .emptyTuplet
      return ⟨divisions, events, tupletScale meter.isCompound divisions, divided, nonempty,
        ⟨meter.isCompound, rfl⟩⟩

end Rhythm
