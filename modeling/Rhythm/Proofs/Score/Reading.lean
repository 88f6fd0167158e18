import Rhythm.Proofs.Score.EventReading

/-
This file shows that measures are read exactly from the lines that spell them. The main statements
are `Measure.read_of_spells` and `Measure.spells_of_read`.
-/

namespace Rhythm

open Outcome Text

theorem built_eq_ok_iff {A : Type} {outcome : Except Fault A} {value : A} :
    built outcome = .ok value ↔ outcome = .ok value :=
  mapError_eq_ok_iff

section Tuplets

variable {meter : Meter} {token body inside : List Char}

/-- A body is unwrapped from one pair of parentheses. -/
theorem unwrap?_eq_some_iff : unwrap? body = some inside ↔ body = '(' :: (inside ++ [')']) := by
  unfold unwrap?
  split
  case h_1 rest => rw [dropLast?_eq_some_iff, List.cons.injEq, and_iff_right rfl]
  case h_2 other =>
    constructor
    · intro unwrapped
      cases unwrapped
    · intro wrapped
      exact absurd wrapped (other _)

/-- A slot that spells an event is read as this event, as far as it is sound. -/
theorem readSlot_of_spells {slot : List Char} {event : EventDraft}
    (spelled : SpellsSlot slot event) : readSlot token slot = built event.build := by
  rw [readSlot, if_neg (by simp [spelled.2.ne_nil])]
  exact Event.read_of_spells spelled.2

theorem spells_of_readSlot {slot : List Char} {event : Event}
    (read : readSlot token slot = .ok event) : SpellsEvent slot event.draft := by
  unfold readSlot at read
  split at read
  case isTrue => cases read
  case isFalse => exact Event.spells_of_read read

/-- The slots of a tuplet are joined without a character that stands around them. -/
theorem not_mem_slots {slots : List (List Char)} {events : List EventDraft} {character : Char}
    (spelled : List.Forall₂ SpellsEvent slots events) (hyphen : character ≠ '-')
    (other : isEventCharacter character = false) : character ∉ ['-'].intercalate slots := by
  intro member
  obtain same | ⟨slot, chosen, inside⟩ := mem_intercalate member
  · exact hyphen same
  · obtain ⟨event, own⟩ := exists_of_mem_left spelled chosen
    exact own.not_mem other inside

/-- Slots that are joined are not empty. -/
theorem slots_ne_nil {slots : List (List Char)} {events : List EventDraft}
    (spelled : List.Forall₂ SpellsEvent slots events) (nonempty : slots ≠ []) :
    ['-'].intercalate slots ≠ [] := by
  cases spelled with
  | nil => exact absurd rfl nonempty
  | @cons slot event rest others own later =>
      by_cases last : rest = []
      · rw [last, List.intercalate_singleton]
        exact own.ne_nil
      · rw [List.intercalate_cons_of_ne_nil last]
        simp

/-- The events of a tuplet are read slot by slot, whatever stands in the slots. -/
theorem Tuplet.read_slots {number : List Char} {slots : List (List Char)} {divisions : UInt32}
    {events : List EventDraft} (word : SpellsWord number divisions) (nonempty : slots ≠ [])
    (spelled : List.Forall₂ SpellsEvent slots events) :
    Tuplet.read meter token number ('(' :: (['-'].intercalate slots ++ [')'])) =
      ((['-'].intercalate slots).splitOn '-').mapM (readSlot token) >>= fun members =>
        built (Tuplet.of divisions (members.map .single) meter) := by
  have flat : (['-'].intercalate slots).contains '=' = false := by
    simpa using not_mem_slots spelled (by decide) (by decide)
  have bare : hasParenthesis (['-'].intercalate slots) = false := by
    rw [hasParenthesis, Bool.or_eq_false_iff]
    constructor
    · simpa using not_mem_slots spelled (by decide) (by decide)
    · simpa using not_mem_slots spelled (by decide) (by decide)
  have filled : (['-'].intercalate slots).isEmpty = false := by
    simpa using slots_ne_nil spelled nonempty
  rw [Tuplet.read, bind_of_eq_ok (expect_eq_ok_iff.mpr (readWord?_eq_some_iff.mpr word)),
    bind_of_eq_ok (expect_eq_ok_iff.mpr (unwrap?_eq_some_iff.mpr rfl))]
  dsimp only
  rw [flat, bare, filled]
  rfl

/-- A text that spells a tuplet is read as this tuplet, as far as it is sound. -/
theorem Tuplet.read_of_spells {number : List Char} {slots : List (List Char)}
    {divisions : UInt32} {events : List EventDraft} (word : SpellsWord number divisions)
    (nonempty : slots ≠ []) (spelled : List.Forall₂ SpellsSlot slots events) :
    Tuplet.read meter token number ('(' :: (['-'].intercalate slots ++ [')'])) =
      built (events.mapM EventDraft.build >>= fun members =>
        Tuplet.of divisions (members.map .single) meter) := by
  have cut : (['-'].intercalate slots).splitOn '-' = slots := by
    have fresh : ∀ slot ∈ slots, '-' ∉ slot := by
      intro slot member
      obtain ⟨event, own⟩ := exists_of_mem_left spelled member
      exact own.1
    exact List.splitOn_intercalate '-' fresh nonempty
  have events : slots.mapM (readSlot token) = built (events.mapM EventDraft.build) := by
    rw [built, mapM_mapError]
    exact mapM_congr (spelled.imp fun _ _ own => readSlot_of_spells own)
  rw [Tuplet.read_slots word nonempty (spelled.imp fun _ _ own => own.2), cut, events]
  exact (mapError_bind _ _ _).symm

/-- A tuplet that is read is spelled by its text. -/
theorem Tuplet.spells_of_read {number : List Char} {tuplet : Tuplet}
    (read : Tuplet.read meter token number body = .ok tuplet) :
    SpellsElement (number ++ '=' :: body) (Element.draft (.group tuplet)) := by
  obtain ⟨divisions, word, afterNumber⟩ := bind_eq_ok_iff.mp read
  obtain ⟨inside, wrapped, afterBody⟩ := bind_eq_ok_iff.mp afterNumber
  clear read afterNumber
  rw [expect_eq_ok_iff] at word wrapped
  rw [readWord?_eq_some_iff] at word
  rw [unwrap?_eq_some_iff] at wrapped
  dsimp only at afterBody
  split at afterBody
  case isTrue => cases afterBody
  case isFalse =>
    split at afterBody
    case isTrue => cases afterBody
    case isFalse =>
      split at afterBody
      case isTrue => cases afterBody
      case isFalse =>
        obtain ⟨events, slots, made⟩ := bind_eq_ok_iff.mp afterBody
        rw [built_eq_ok_iff, Tuplet.of_eq_ok_iff] at made
        obtain ⟨rfl, rfl, -⟩ := made
        have spelled : List.Forall₂ SpellsSlot (inside.splitOn '-')
            (tuplet.events.map Event.draft) := by
          rw [List.forall₂_map_right_iff]
          apply (List.forall₂_and_left _ _).mpr
          refine ⟨fun slot member => not_mem_of_mem_splitOn member, ?_⟩
          exact (mapM_eq_ok_iff.mp slots).imp fun _ _ own => spells_of_readSlot own
        have element := SpellsElement.group word (List.splitOn_ne_nil '-' inside) spelled
        rw [List.intercalate_splitOn, ← wrapped] at element
        exact element

end Tuplets

section Elements

variable {meter : Meter} {token : List Char}

/-- An element that is read is spelled by its token and has the scale of the meter. -/
theorem Element.spells_of_read {element : Element}
    (read : Element.read meter token = .ok element) : SpellsElement token element.draft := by
  unfold Element.read at read
  split at read
  case h_1 number body cut =>
    obtain ⟨tuplet, own, rfl⟩ := map_eq_ok_iff.mp read
    obtain ⟨rfl, -⟩ := cutAt_eq_some_iff.mp cut
    exact Tuplet.spells_of_read own
  case h_2 =>
    obtain ⟨event, own, rfl⟩ := map_eq_ok_iff.mp read
    exact SpellsElement.single (Event.spells_of_read own)

/-- A text that spells an element is read as this element, as far as its parts are sound. -/
theorem Element.read_of_spells {draft : ElementDraft} (spelled : SpellsElement token draft) :
    Element.read meter token = built (draft.build meter) := by
  cases spelled with
  | @single _ event own =>
      rw [Element.read, cutAt_eq_none_iff.mpr (own.not_mem (by decide))]
      dsimp only
      rw [Event.read_of_spells own]
      exact (mapError_map _ _ _).symm
  | @group number slots divisions events word nonempty own =>
      rw [Element.read, cutAt_append (word.not_mem (by decide) (by decide))]
      dsimp only
      rw [Tuplet.read_of_spells word nonempty own, ElementDraft.build]
      cases events.mapM EventDraft.build with
      | error fault => rfl
      | ok members =>
          change (built (Tuplet.of divisions _ meter)).map _ =
            built (Tuplet.of divisions _ meter >>= _)
          cases Tuplet.of divisions (members.map .single) meter <;> rfl

end Elements

section Intros

variable {meter : Meter} {token intro text : List Char} {grouping? : Option (List UInt32)}

/-- The text that the groups add to a meter. -/
def groupsText (groups? : Option (List Char)) : List Char :=
  groups?.elim [] fun groups => '(' :: (groups ++ [')'])

/-- No character is lost when the groups are cut off. -/
theorem eq_of_splitIntro {before : List Char} {groups? : Option (List Char)}
    (split : splitIntro token intro = .ok (before, groups?)) :
    intro = before ++ groupsText groups? := by
  unfold splitIntro at split
  split at split
  case h_1 front after cut =>
    obtain ⟨rfl, -⟩ := cutAt_eq_some_iff.mp cut
    split at split
    case h_1 inside closed =>
      rw [dropLast?_eq_some_iff.mp closed]
      split at split
      case isTrue => cases split
      case isFalse =>
        cases split
        rfl
    case h_2 => cases split
  case h_2 =>
    split at split
    case isTrue => cases split
    case isFalse =>
      cases split
      exact (List.append_nil intro).symm

/-- An intro without parentheses has no groups. -/
theorem splitIntro_plain (opened : '(' ∉ text) (closed : ')' ∉ text) :
    splitIntro token text = .ok (text, none) := by
  rw [splitIntro, cutAt_eq_none_iff.mpr opened]
  dsimp only
  rw [if_neg (by simpa using closed)]

/-- The groups of an intro stand in one pair of parentheses. -/
theorem splitIntro_grouped {groups : List Char} (opened : '(' ∉ text)
    (bare : hasParenthesis groups = false) :
    splitIntro token (text ++ '(' :: (groups ++ [')'])) = .ok (text, some groups) := by
  rw [splitIntro, cutAt_append opened]
  dsimp only
  rw [dropLast?_eq_some_iff.mpr rfl]
  dsimp only
  rw [bare, if_neg Bool.false_ne_true]

/-- A meter that is read is spelled by a fraction of words. -/
theorem Meter.spells_of_read (read : Meter.read token text = .ok meter) :
    ∃ count unit, text = count ++ '/' :: unit ∧ SpellsWord count meter.count ∧
      SpellsWord unit meter.unit := by
  obtain ⟨⟨count, unit⟩, cut, afterCut⟩ := bind_eq_ok_iff.mp read
  obtain ⟨upper, upperWord, afterUpper⟩ := bind_eq_ok_iff.mp afterCut
  obtain ⟨lower, lowerWord, afterLower⟩ := bind_eq_ok_iff.mp afterUpper
  obtain ⟨_, -, equation⟩ := bind_eq_ok_iff.mp afterLower
  cases equation
  rw [expect_eq_ok_iff] at cut upperWord lowerWord
  exact ⟨count, unit, (cutAt_eq_some_iff.mp cut).1, readWord?_eq_some_iff.mp upperWord,
    readWord?_eq_some_iff.mp lowerWord⟩

/-- A fraction of words is read as a meter, as far as it is playable. -/
theorem Meter.read_of_spells {count unit : List Char} (upper : SpellsWord count meter.count)
    (lower : SpellsWord unit meter.unit) :
    Meter.read token (count ++ '/' :: unit) = built meter.check >>= fun _ => pure meter := by
  have cut : cutAt '/' (count ++ '/' :: unit) = some (count, unit) :=
    cutAt_append (upper.not_mem (by decide) (by decide))
  rw [Meter.read, bind_of_eq_ok (expect_eq_ok_iff.mpr cut)]
  dsimp only
  rw [bind_of_eq_ok (expect_eq_ok_iff.mpr (readWord?_eq_some_iff.mpr upper)),
    bind_of_eq_ok (expect_eq_ok_iff.mpr (readWord?_eq_some_iff.mpr lower))]

/-- Groups that are read are spelled by their pieces. -/
theorem spells_of_readGroups {groups : List Char} {grouping : List UInt32}
    (read : (groups.splitOn '+').mapM (readGroup token) = .ok grouping) :
    List.Forall₂ SpellsNumeral (groups.splitOn '+') grouping := by
  have paired := (List.forall₂_and_left _ _).mpr
    ⟨fun piece member => @not_mem_of_mem_splitOn '+' groups piece member, mapM_eq_ok_iff.mp read⟩
  apply paired.imp
  intro piece group own
  obtain ⟨unsigned, word⟩ := own
  rw [readGroup, expect_eq_ok_iff, readWord?_eq_some_iff_of_not_mem unsigned] at word
  exact word

/-- Groups that are spelled are read. -/
theorem readGroups_of_spells {texts : List (List Char)} {grouping : List UInt32}
    (nonempty : texts ≠ []) (spelled : List.Forall₂ SpellsNumeral texts grouping) :
    ((['+'].intercalate texts).splitOn '+').mapM (readGroup token) = .ok grouping := by
  have cut : (['+'].intercalate texts).splitOn '+' = texts := by
    have fresh : ∀ text ∈ texts, '+' ∉ text := by
      intro text member
      obtain ⟨group, own⟩ := exists_of_mem_left spelled member
      exact own.not_mem (by decide)
    exact List.splitOn_intercalate '+' fresh nonempty
  rw [cut, mapM_eq_ok_iff]
  apply spelled.imp
  intro text group own
  rw [readGroup, expect_eq_ok_iff, readWord?_eq_some_iff]
  exact Or.inl own

/-- An intro that is read is spelled, apart from blanks. -/
theorem spells_of_readIntro (read : readIntro intro = .ok (meter, grouping?)) :
    SpellsIntro (squeeze intro) meter grouping? := by
  obtain ⟨⟨meterText, groups?⟩, split, afterSplit⟩ := bind_eq_ok_iff.mp read
  obtain ⟨own, meterRead, afterMeter⟩ := bind_eq_ok_iff.mp afterSplit
  clear read afterSplit
  rw [eq_of_splitIntro split]
  obtain ⟨count, unit, rfl, upper, lower⟩ := Meter.spells_of_read meterRead
  cases groups? with
  | none =>
      cases afterMeter
      rw [groupsText, Option.elim_none, List.append_nil]
      exact SpellsIntro.plain upper lower
  | some groups =>
      obtain ⟨grouping, groupsRead, equation⟩ := bind_eq_ok_iff.mp afterMeter
      cases equation
      have spelled := SpellsIntro.grouped upper lower (List.splitOn_ne_nil '+' groups)
        (spells_of_readGroups groupsRead)
      rw [List.intercalate_splitOn] at spelled
      simpa [groupsText] using spelled

/-- A fraction of words holds no parenthesis. -/
theorem not_mem_fraction {count unit : List Char} {upper lower : UInt32} {character : Char}
    (countWord : SpellsWord count upper) (unitWord : SpellsWord unit lower)
    (other : character = '(' ∨ character = ')') : character ∉ count ++ '/' :: unit := by
  have strange : character.isDigit = false ∧ character ≠ '+' ∧ character ≠ '/' := by
    rcases other with rfl | rfl <;> decide
  obtain ⟨digit, plus, slash⟩ := strange
  rw [List.mem_append, not_or]
  exact ⟨countWord.not_mem digit plus,
    List.not_mem_cons_of_ne_of_not_mem slash (unitWord.not_mem digit plus)⟩

/-- An intro that is spelled is read, apart from blanks, and only its meter is left to check. -/
theorem readIntro_of_spells (spelled : SpellsIntro (squeeze intro) meter grouping?) :
    readIntro intro = built meter.check >>= fun _ => pure (meter, grouping?) := by
  unfold readIntro
  dsimp only
  generalize squeeze intro = text at spelled
  cases spelled with
  | plain upper lower =>
      rw [bind_of_eq_ok (splitIntro_plain (not_mem_fraction upper lower (Or.inl rfl))
        (not_mem_fraction upper lower (Or.inr rfl)))]
      dsimp only
      rw [Meter.read_of_spells upper lower]
      cases built meter.check <;> rfl
  | @grouped count unit meter texts groups upper lower nonempty own =>
      have groupsBare {character : Char} (other : character = '(' ∨ character = ')') :
          character ∉ ['+'].intercalate texts := by
        intro member
        obtain rfl | ⟨text, chosen, inside⟩ := mem_intercalate member
        · rcases other with plus | plus <;> cases plus
        · obtain ⟨group, numeral⟩ := exists_of_mem_left own chosen
          exact numeral.not_mem (by rcases other with rfl | rfl <;> rfl) inside
      have bare : hasParenthesis (['+'].intercalate texts) = false := by
        simp [hasParenthesis, groupsBare]
      have cut := @splitIntro_grouped (trim intro) (count ++ '/' :: unit) _
        (not_mem_fraction upper lower (Or.inl rfl)) bare
      rw [List.append_assoc, List.cons_append] at cut
      rw [bind_of_eq_ok cut]
      dsimp only
      rw [Meter.read_of_spells upper lower, readGroups_of_spells nonempty own]
      cases built meter.check <;> rfl

end Intros

section Measures

variable {line : List Char}

/-- A measure that is read realizes a draft that its line spells. -/
theorem Measure.spells_of_read {measure : Measure} (read : Measure.read line = .ok measure) :
    ∃ draft, Spells line draft ∧ draft.Realizes measure := by
  obtain ⟨⟨intro, contents⟩, cut, afterCut⟩ := bind_eq_ok_iff.mp read
  obtain ⟨⟨meter, grouping?⟩, introRead, afterIntro⟩ := bind_eq_ok_iff.mp afterCut
  clear read afterCut
  rw [expect_eq_ok_iff] at cut
  obtain ⟨whole, first⟩ := cutAt_eq_some_iff.mp cut
  dsimp only at afterIntro
  split at afterIntro
  case isTrue => cases afterIntro
  case isFalse filled =>
    obtain ⟨elements, tokens, made⟩ := bind_eq_ok_iff.mp afterIntro
    rw [built_eq_ok_iff, Measure.of_eq_ok_iff] at made
    obtain ⟨sameMeter, rfl, sameGrouping⟩ := made
    have spelled : List.Forall₂ SpellsElement (words contents)
        (measure.elements.map Element.draft) := by
      rw [List.forall₂_map_right_iff]
      exact (mapM_eq_ok_iff.mp tokens).imp fun _ _ own => Element.spells_of_read own
    exact ⟨⟨meter, grouping?, measure.elements.map Element.draft⟩,
      ⟨intro, contents, whole, first, spells_of_readIntro introRead, by simpa using filled,
        spelled⟩,
      sameMeter, sameGrouping, rfl⟩

/-- A line that spells a draft is read as this draft, as far as it is sound. -/
theorem Measure.read_of_spells {draft : MeasureDraft} (spelled : Spells line draft) :
    Measure.read line = built draft.build := by
  obtain ⟨intro, contents, rfl, first, introSpelled, filled, elements⟩ := spelled
  have tokens : (words contents).mapM (Element.read draft.meter) =
      built (draft.elements.mapM (ElementDraft.build draft.meter)) := by
    rw [built, mapM_mapError]
    exact mapM_congr (elements.imp fun _ _ own => Element.read_of_spells own)
  rw [Measure.read, bind_of_eq_ok (expect_eq_ok_iff.mpr (cutAt_append first))]
  dsimp only
  rw [MeasureDraft.build]
  have introRead := readIntro_of_spells introSpelled
  cases check : draft.meter.check with
  | error fault =>
      rw [introRead, check]
      rfl
  | ok playable =>
      rw [check] at introRead
      rw [bind_of_eq_ok introRead]
      dsimp only
      rw [if_neg (by simpa using filled), tokens]
      exact (mapError_bind _ _ _).symm

end Measures

end Rhythm
