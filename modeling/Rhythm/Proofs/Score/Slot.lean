import Rhythm.Proofs.Decimal.Hyphen
import Rhythm.Proofs.Score.Reading

/-
This file compares the slots of a tuplet with events that stand by themselves. The main statement
is `Element.read_group_exact`, that a tuplet of events is read as these events unless one of them is
written with a hyphen.
-/

namespace Rhythm

open Outcome Text

/-- The token of a tuplet, with hyphens between its slots. -/
def groupToken (number : List Char) (slots : List (List Char)) : List Char :=
  number ++ '=' :: '(' :: (['-'].intercalate slots ++ [')'])

section Hyphens

variable {token front back before after : List Char} {event : Event}

/-- A character that is not in the second of two texts stands in the first one. -/
theorem exists_of_append_cons_eq {character : Char}
    (same : front ++ character :: back = before ++ after) (plain : character ∉ after) :
    ∃ inner, before = front ++ character :: inner := by
  obtain ⟨inner, rfl, split⟩ | ⟨inner, -, rfl⟩ := List.append_eq_append_iff.mp same
  · obtain ⟨rfl, rfl⟩ | ⟨others, rfl, -⟩ := List.cons_eq_append_iff.mp split
    · exact absurd List.mem_cons_self plain
    · exact ⟨others, rfl⟩
  · exact absurd (by simp) plain

/-- Only the duration of an event is written with hyphens. -/
theorem SpellsEvent.exists_duration {draft : EventDraft} (spelled : SpellsEvent token draft) :
    ∃ duration rest, token = duration ++ rest ∧
      Decimal.readFloat? duration = some draft.beats ∧ '-' ∉ rest := by
  have plain {text : List Char} (fields : ∀ character ∈ text, isFieldCharacter character = true) :
      '-' ∉ '/' :: text := by
    intro member
    obtain same | inside := List.mem_cons.mp member
    · cases same
    · cases fields _ inside
  cases spelled with
  | bare number => exact ⟨_, [], (List.append_nil _).symm, number, List.not_mem_nil⟩
  | rest number marked =>
      refine ⟨_, _, rfl, number, ?_⟩
      rcases marked with rfl | rfl <;> decide
  | pitched number named =>
      exact ⟨_, _, rfl, number, plain fun _ => named.isFieldCharacter⟩
  | flagged number marked =>
      exact ⟨_, _, rfl, number, plain fun _ => marked.isFieldCharacter⟩
  | full number named marked =>
      refine ⟨_, _, rfl, number, ?_⟩
      rw [← List.cons_append, List.mem_append, not_or]
      exact ⟨plain fun _ => named.isFieldCharacter, plain fun _ => marked.isFieldCharacter⟩

/-- The text before the first hyphen of an event ends in the letter of a power of ten, and is
refused as a duration. -/
theorem Event.read_front (read : Event.read (front ++ '-' :: back) = .ok event)
    (first : '-' ∉ front) :
    (∃ stem letter, front = stem ++ [letter] ∧ Decimal.PowerLetter letter) ∧
      Event.read front = .error (.misprint front (.duration front)) := by
  obtain ⟨duration, rest, cut, number, plain⟩ := (Event.spells_of_read read).exists_duration
  have lasts : Lasts event.draft.beats := by
    rw [event.beats_draft]
    exact event.beats_lasts
  obtain ⟨inner, rfl⟩ := exists_of_append_cons_eq cut plain
  obtain ⟨letter, none⟩ := Decimal.hyphen_of_lasts number lasts first
  have whole : '/' ∉ front := by
    intro member
    have inside : '/' ∈ front ++ '-' :: inner := List.mem_append_left _ member
    cases Decimal.isNumeric_of_readFloat? number '/' inside
  refine ⟨letter, ?_⟩
  rw [Event.read, bind_of_eq_ok (EventFields.read_one whole)]
  dsimp only
  rw [none]
  rfl

end Hyphens

section Slots

variable {number token : List Char} {tokens : List (List Char)} {divisions : UInt32}
  {events : List Event} {meter : Meter}

/-- Joined texts are cut into the pieces of each of them. -/
theorem splitOn_intercalate {separator : Char} {texts : List (List Char)} (nonempty : texts ≠ []) :
    ([separator].intercalate texts).splitOn separator =
      texts.flatMap fun text => text.splitOn separator := by
  induction texts with
  | nil => exact absurd rfl nonempty
  | cons text rest inductionHypothesis =>
      by_cases last : rest = []
      · rw [last, List.intercalate_singleton, List.flatMap_singleton]
      · rw [List.intercalate_cons_of_ne_nil last, List.append_assoc, List.singleton_append,
          List.flatMap_cons, ← inductionHypothesis last]
        exact List.splitOnP_append_cons text _ (beq_self_eq_true separator)

/-- Texts without a separator are pieces themselves. -/
theorem flatMap_splitOn_of_plain {separator : Char} {texts : List (List Char)}
    (plain : ∀ text ∈ texts, separator ∉ text) :
    (texts.flatMap fun text => text.splitOn separator) = texts := by
  induction texts with
  | nil => rfl
  | cons text rest inductionHypothesis =>
      obtain ⟨own, others⟩ := List.forall_mem_cons.mp plain
      rw [List.flatMap_cons, List.splitOn_eq_singleton own, inductionHypothesis others,
        List.singleton_append]

/-- An element that is a single event is read as one. -/
theorem Event.read_of_element {event : Event}
    (read : Element.read meter token = .ok (.single event)) : Event.read token = .ok event := by
  unfold Element.read at read
  split at read
  case h_1 =>
    obtain ⟨tuplet, -, equation⟩ := map_eq_ok_iff.mp read
    cases equation
  case h_2 =>
    obtain ⟨own, found, equation⟩ := map_eq_ok_iff.mp read
    cases equation
    exact found

/-- The token of a tuplet of events is cut into slots at the hyphens of all its events. -/
theorem Element.read_groupToken (word : SpellsWord number divisions) (nonempty : tokens ≠ [])
    (accepted : List.Forall₂ (fun token event => Event.read token = .ok event) tokens events) :
    Element.read meter (groupToken number tokens) =
      ((tokens.flatMap fun token => token.splitOn '-').mapM
        (readSlot (groupToken number tokens)) >>= fun members =>
          built (Tuplet.of divisions (members.map .single) meter)).map .group := by
  have spelled : List.Forall₂ SpellsEvent tokens (events.map Event.draft) := by
    rw [List.forall₂_map_right_iff]
    exact accepted.imp fun _ _ => Event.spells_of_read
  rw [← splitOn_intercalate nonempty, ← Tuplet.read_slots word nonempty spelled, Element.read,
    groupToken, cutAt_append (word.not_mem (by decide) (by decide))]

/-- A slot without hyphens that is read as an event by itself is read as this event. -/
theorem readSlot_of_read {event : Event} {group : List Char}
    (read : Event.read token = .ok event) : readSlot group token = .ok event := by
  rw [readSlot, if_neg (by simpa using (Event.spells_of_read read).ne_nil)]
  exact read

/-- A tuplet whose events are written without hyphens holds these events. -/
theorem Element.read_group_of_plain (word : SpellsWord number divisions)
    (positive : 0 < divisions) (nonempty : tokens ≠ [])
    (accepted : List.Forall₂ (fun token event => Event.read token = .ok event) tokens events)
    (plain : ∀ token ∈ tokens, '-' ∉ token) :
    ∃ tuplet, Element.read meter (groupToken number tokens) = .ok (.group tuplet) ∧
      tuplet.divisions = divisions ∧ tuplet.events = events ∧
        tuplet.scale = tupletScale meter.isCompound divisions := by
  have filled : events ≠ [] := by
    rintro rfl
    cases accepted
    exact nonempty rfl
  have slots : tokens.mapM (readSlot (groupToken number tokens)) = .ok events :=
    mapM_eq_ok_iff.mpr (accepted.imp fun _ _ => readSlot_of_read)
  let tuplet : Tuplet := ⟨divisions, events, tupletScale meter.isCompound divisions, positive,
    filled, ⟨meter.isCompound, rfl⟩⟩
  have made : Tuplet.of divisions (events.map .single) meter = .ok tuplet :=
    Tuplet.of_eq_ok_iff.mpr ⟨rfl, rfl, rfl⟩
  refine ⟨tuplet, ?_, rfl, rfl, rfl⟩
  rw [Element.read_groupToken word nonempty accepted,
    flatMap_splitOn_of_plain plain, bind_of_eq_ok slots, made]
  rfl

/-- A tuplet with a hyphen in an event is refused, since it is cut at the first such hyphen. -/
theorem Element.read_group_of_hyphen {before after : List (List Char)} {front back : List Char}
    (word : SpellsWord number divisions)
    (accepted : List.Forall₂ (fun token event => Event.read token = .ok event)
      (before ++ (front ++ '-' :: back) :: after) events)
    (plain : ∀ token ∈ before, '-' ∉ token) (first : '-' ∉ front) :
    (∃ stem letter, front = stem ++ [letter] ∧ Decimal.PowerLetter letter) ∧
      Element.read meter (groupToken number (before ++ (front ++ '-' :: back) :: after)) =
        .error (.misprint front (.duration front)) := by
  obtain ⟨event, own⟩ :=
    exists_of_mem_left accepted (List.mem_append_right before List.mem_cons_self)
  obtain ⟨letter, refused⟩ := Event.read_front own first
  refine ⟨letter, ?_⟩
  have pieces : ((before ++ (front ++ '-' :: back) :: after).flatMap fun token =>
      token.splitOn '-') =
        before ++ front :: (back.splitOn '-' ++ after.flatMap fun token => token.splitOn '-') := by
    rw [List.flatMap_append, List.flatMap_cons, flatMap_splitOn_of_plain plain,
      List.splitOn_append_cons_self_of_not_mem first, List.cons_append]
  have filled : front.isEmpty = false := by
    obtain ⟨stem, character, rfl, -⟩ := letter
    simp
  have failed : (before ++ front :: (back.splitOn '-' ++ after.flatMap fun token =>
      token.splitOn '-')).mapM
        (readSlot (groupToken number (before ++ (front ++ '-' :: back) :: after))) =
          .error (.misprint front (.duration front)) := by
    refine mapM_eq_error_iff.mpr ⟨before, front, _, rfl, fun earlier member => ?_, ?_⟩
    · obtain ⟨other, read⟩ := exists_of_mem_left accepted (List.mem_append_left _ member)
      exact ⟨other, readSlot_of_read read⟩
    · rw [readSlot, filled]
      exact refused
  rw [Element.read_groupToken word (by simp) accepted, pieces, failed]
  rfl

/-- Texts that are read as events by themselves make up the slots of a tuplet. If none of them has a
hyphen, the tuplet is read, and holds the same events. Otherwise it is refused at the first hyphen,
which stands after the letter of a power of ten: the text before it is no duration. -/
theorem Element.read_group_exact (word : SpellsWord number divisions) (positive : 0 < divisions)
    (nonempty : tokens ≠ [])
    (accepted : List.Forall₂ (fun token event => Element.read meter token = .ok (.single event))
      tokens events) :
    ((∀ token ∈ tokens, '-' ∉ token) →
      ∃ tuplet, Element.read meter (groupToken number tokens) = .ok (.group tuplet) ∧
        tuplet.divisions = divisions ∧ tuplet.events = events ∧
          tuplet.scale = tupletScale meter.isCompound divisions) ∧
    ∀ before front back after, tokens = before ++ (front ++ '-' :: back) :: after →
      (∀ token ∈ before, '-' ∉ token) → '-' ∉ front →
      (∃ stem letter, front = stem ++ [letter] ∧ Decimal.PowerLetter letter) ∧
        Element.read meter (groupToken number tokens) =
          .error (.misprint front (.duration front)) := by
  have events_read := accepted.imp fun _ _ => Event.read_of_element
  constructor
  · exact Element.read_group_of_plain word positive nonempty events_read
  · rintro before front back after rfl plain first
    exact Element.read_group_of_hyphen word events_read plain first

end Slots

section Example

/-- A tenth of a beat, written with a power of ten. -/
def tenth : List Char :=
  "1e-1".toList

theorem exists_read_tenth (meter : Meter) :
    ∃ event, Element.read meter tenth = .ok (.single event) := by
  have spelled : SpellsElement tenth (.single (.note 0.1 .middleC false false)) :=
    SpellsElement.single (SpellsEvent.bare (show Decimal.readFloat? tenth = some 0.1 by decide))
  have lasts : Lasts 0.1 := by decide
  refine ⟨.note ⟨⟨0.1, lasts⟩, .middleC, false, false⟩, ?_⟩
  rw [Element.read_of_spells spelled, built_eq_ok_iff, ElementDraft.build, map_eq_ok_iff]
  exact ⟨_, EventDraft.build_eq_ok_iff.mpr rfl, rfl⟩

theorem spellsWord_one : SpellsWord ['1'] 1 :=
  Or.inl ⟨by decide, List.all_eq_true.mp rfl, by decide⟩

/-- A tenth of a beat is read by itself and refused in a tuplet. -/
theorem Element.read_group_exact_tenth :
    (∃ event, Element.read .common tenth = .ok (.single event)) ∧
    Element.read .common "1=(1e-1)".toList =
      .error (.misprint "1e".toList (.duration "1e".toList)) := by
  obtain ⟨event, read⟩ := exists_read_tenth .common
  refine ⟨⟨event, read⟩, ?_⟩
  exact ((Element.read_group_exact spellsWord_one (by decide) (List.cons_ne_nil tenth [])
    (.cons read .nil)).2 [] ['1', 'e'] ['1'] [] rfl (by simp) (by decide)).2

/-- Not every event that is read by itself is read in a tuplet. -/
theorem Element.not_read_group :
    ¬ ∀ (meter : Meter) (number : List Char) (divisions : UInt32) (tokens : List (List Char))
      (events : List Event), SpellsWord number divisions → 0 < divisions → tokens ≠ [] →
      List.Forall₂ (fun token event => Element.read meter token = .ok (.single event))
        tokens events →
      ∃ tuplet, Element.read meter (groupToken number tokens) = .ok (.group tuplet) ∧
        tuplet.events = events := by
  intro same
  obtain ⟨event, read⟩ := exists_read_tenth .common
  obtain ⟨tuplet, accepted, -⟩ := same .common ['1'] 1 [tenth] [event] spellsWord_one (by decide)
    (List.cons_ne_nil _ _) (.cons read .nil)
  have refused := (@Element.read_group_of_hyphen ['1'] 1 [event] .common [] [] ['1', 'e'] ['1']
    spellsWord_one (.cons (Event.read_of_element read) .nil) (by simp) (by decide)).2
  cases accepted.symm.trans refused

end Example

end Rhythm
