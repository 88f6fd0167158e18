import Rhythm.Proofs.Score.Reading
import Rhythm.Proofs.Text.Piece

/-
This file shows that the token of a misprint is a piece of the line that was read. The main
statement is `Measure.tokensIn_read`.
-/

namespace Rhythm

open Text

/-- The tokens of a reading are in a text when every misprint it reports has a piece of the text
for its token. -/
def TokensIn {A : Type} (text : List Char) (reading : Reading A) : Prop :=
  ∀ token misprint, reading = .error (.misprint token misprint) → token <:+: text

namespace TokensIn

variable {A B : Type} {text token : List Char} {reading : Reading A}

theorem ok (value : A) : TokensIn text (Except.ok value : Reading A) := by
  intro token misprint failed
  cases failed

/-- A misprint of a piece of the text is in the text. -/
theorem misprint (inside : token <:+: text) (misprint : Misprint) :
    TokensIn text (Except.error (.misprint token misprint) : Reading A) := by
  intro other _ failed
  cases failed
  exact inside

theorem nested : TokensIn text (Except.error (.nested token) : Reading A) := by
  intro other misprint failed
  cases failed

theorem expect (inside : token <:+: text) (misprint : Misprint) (part? : Option A) :
    TokensIn text (expect token misprint part?) := by
  cases part? with
  | none => exact TokensIn.misprint inside misprint
  | some value => exact TokensIn.ok value

/-- A part that cannot exist is no misprint. -/
theorem built (result : Except Fault A) : TokensIn text (built result) := by
  intro token misprint failed
  cases result <;> cases failed

theorem bind {next : A → Reading B} (first : TokensIn text reading)
    (later : ∀ value, reading = .ok value → TokensIn text (next value)) :
    TokensIn text (reading >>= next) := by
  intro token misprint failed
  cases reading with
  | error misreading =>
      cases failed
      exact first token misprint rfl
  | ok value => exact later value rfl token misprint failed

theorem map {change : A → B} (own : TokensIn text reading) :
    TokensIn text (reading.map change) := by
  intro token misprint failed
  cases reading with
  | error misreading =>
      cases failed
      exact own token misprint rfl
  | ok value => cases failed

theorem mapM {step : A → Reading B} {inputs : List A}
    (own : ∀ input ∈ inputs, TokensIn text (step input)) : TokensIn text (inputs.mapM step) := by
  induction inputs with
  | nil => exact TokensIn.ok []
  | cons input rest inductionHypothesis =>
      rw [List.mapM_cons]
      refine TokensIn.bind (own input List.mem_cons_self) fun value _ => ?_
      refine TokensIn.bind (inductionHypothesis fun other member => ?_) fun values _ => ?_
      · exact own other (List.mem_cons_of_mem _ member)
      · exact TokensIn.ok _

/-- The pieces of a piece are pieces of the whole. -/
theorem mono {whole : List Char} (own : TokensIn text reading) (inside : text <:+: whole) :
    TokensIn whole reading := by
  intro token misprint failed
  exact (own token misprint failed).trans inside

end TokensIn

section Events

variable {token : List Char}

theorem EventFields.tokensIn_read (token : List Char) :
    TokensIn token (EventFields.read token) := by
  unfold EventFields.read
  split
  · exact TokensIn.ok _
  · split <;> exact TokensIn.ok _
  · split
    · exact TokensIn.ok _
    · exact TokensIn.misprint (List.infix_refl _) _
  · exact TokensIn.misprint (List.infix_refl _) _

theorem Pitch.tokensIn_read (token field : List Char) :
    TokensIn token (Pitch.read token field) := by
  unfold Pitch.read
  refine TokensIn.bind (TokensIn.expect (List.infix_refl _) _ _) fun parts _ => ?_
  refine TokensIn.bind (TokensIn.expect (List.infix_refl _) _ _) fun name _ => ?_
  dsimp only
  split <;> refine TokensIn.bind ?_ fun accidental _ =>
    TokensIn.bind (TokensIn.expect (List.infix_refl _) _ _) fun digit _ => TokensIn.ok _
  · exact TokensIn.expect (List.infix_refl _) _ _
  · exact TokensIn.ok _

theorem tokensIn_readFlags (token : List Char) (flags : List (List Char)) :
    TokensIn token (readFlags token flags) := by
  induction flags with
  | nil => exact TokensIn.ok _
  | cons flag rest inductionHypothesis =>
      unfold readFlags
      split
      · exact inductionHypothesis.map
      · split
        · exact inductionHypothesis.map
        · exact TokensIn.misprint (List.infix_refl _) _

theorem Note.tokensIn_read (token : List Char) (fields : EventFields) (beats : Float) :
    TokensIn token (Note.read token fields beats) := by
  rw [Note.read_eq]
  refine TokensIn.bind ?_ fun pitch _ => TokensIn.bind ?_ fun flags _ =>
    TokensIn.bind (TokensIn.built _) fun duration _ => TokensIn.ok _
  · cases fields.pitch? with
    | none => exact TokensIn.ok _
    | some field => exact Pitch.tokensIn_read token field
  · cases fields.flags? with
    | none => exact TokensIn.ok _
    | some field => exact tokensIn_readFlags token _

theorem Event.tokensIn_read (token : List Char) : TokensIn token (Event.read token) := by
  unfold Event.read
  refine TokensIn.bind (EventFields.tokensIn_read token) fun fields _ => ?_
  refine TokensIn.bind (TokensIn.expect (List.infix_refl _) _ _) fun beats _ => ?_
  split
  · dsimp only
    split
    · exact TokensIn.misprint (List.infix_refl _) _
    · exact TokensIn.bind (TokensIn.built _) fun duration _ => TokensIn.ok _
  · exact TokensIn.bind (Note.tokensIn_read token fields beats) fun note _ => TokensIn.ok _

end Events

section Measures

variable {meter : Meter} {token text body : List Char}

theorem tokensIn_readSlot {slot : List Char} (inside : slot <:+: token) :
    TokensIn token (readSlot token slot) := by
  unfold readSlot
  split
  · exact TokensIn.misprint (List.infix_refl _) _
  · exact (Event.tokensIn_read slot).mono inside

theorem infix_of_unwrap? {inside : List Char} (wrapped : unwrap? body = some inside) :
    inside <:+: body := by
  rw [unwrap?_eq_some_iff.mp wrapped]
  exact ⟨['('], [')'], rfl⟩

/-- The events of a tuplet are pieces of its token. -/
theorem Tuplet.tokensIn_read (meter : Meter) (divisionsText : List Char)
    (inside : body <:+: token) : TokensIn token (Tuplet.read meter token divisionsText body) := by
  unfold Tuplet.read
  refine TokensIn.bind (TokensIn.expect (List.infix_refl _) _ _) fun divisions _ => ?_
  refine TokensIn.bind (TokensIn.expect (List.infix_refl _) _ _) fun slots wrapped => ?_
  have within := (infix_of_unwrap? (expect_eq_ok_iff.mp wrapped)).trans inside
  dsimp only
  split
  · exact TokensIn.nested
  · split
    · exact TokensIn.misprint (List.infix_refl _) _
    · split
      · exact TokensIn.misprint (List.infix_refl _) _
      · refine TokensIn.bind (TokensIn.mapM fun slot member => ?_) fun events _ =>
          TokensIn.built _
        exact tokensIn_readSlot ((infix_of_mem_splitOn member).trans within)

theorem Element.tokensIn_read (meter : Meter) (token : List Char) :
    TokensIn token (Element.read meter token) := by
  unfold Element.read
  split
  case h_1 divisions body cut =>
    exact (Tuplet.tokensIn_read meter divisions (infix_of_cutAt cut).2).map
  case h_2 => exact (Event.tokensIn_read token).map

theorem tokensIn_splitIntro (token intro : List Char) :
    TokensIn token (splitIntro token intro) := by
  unfold splitIntro
  split
  · split
    · split
      · exact TokensIn.misprint (List.infix_refl _) _
      · exact TokensIn.ok _
    · exact TokensIn.misprint (List.infix_refl _) _
  · split
    · exact TokensIn.misprint (List.infix_refl _) _
    · exact TokensIn.ok _

theorem Meter.tokensIn_read (token text : List Char) : TokensIn token (Meter.read token text) := by
  unfold Meter.read
  refine TokensIn.bind (TokensIn.expect (List.infix_refl _) _ _) fun cut _ => ?_
  refine TokensIn.bind (TokensIn.expect (List.infix_refl _) _ _) fun count _ => ?_
  refine TokensIn.bind (TokensIn.expect (List.infix_refl _) _ _) fun unit _ => ?_
  exact TokensIn.bind (TokensIn.built _) fun playable _ => TokensIn.ok _

theorem tokensIn_readIntro (intro : List Char) : TokensIn intro (readIntro intro) := by
  unfold readIntro
  have whole : TokensIn (trim intro) _ := tokensIn_splitIntro (trim intro) (squeeze intro)
  refine TokensIn.bind (whole.mono (infix_of_trim intro)) fun parts _ => ?_
  refine TokensIn.bind ((Meter.tokensIn_read _ _).mono (infix_of_trim intro)) fun meter _ => ?_
  split
  · refine TokensIn.bind (TokensIn.mapM fun group _ => ?_) fun groups _ => TokensIn.ok _
    exact TokensIn.expect (infix_of_trim intro) _ _
  · exact TokensIn.ok _

/-- The token of a misprint is a piece of the line that it was found in. -/
theorem Measure.tokensIn_read (line : List Char) : TokensIn line (Measure.read line) := by
  unfold Measure.read
  refine TokensIn.bind (TokensIn.expect (infix_of_trim line) _ _) fun parts cut => ?_
  obtain ⟨introInside, contentsInside⟩ := infix_of_cutAt (expect_eq_ok_iff.mp cut)
  refine TokensIn.bind ((tokensIn_readIntro _).mono introInside) fun meter _ => ?_
  dsimp only
  split
  · exact TokensIn.misprint (infix_of_trim line) _
  · refine TokensIn.bind (TokensIn.mapM fun token member => ?_) fun elements _ =>
      TokensIn.built _
    exact (Element.tokensIn_read _ token).mono ((infix_of_mem_words member).trans contentsInside)

end Measures

end Rhythm
