import Rhythm.Fault

/-
This file holds pitches: a letter, an accidental and an octave. The main statements say that the
letters, codes and glyphs read back.
-/

namespace Rhythm

inductive Letter where
  | c | d | e | f | g | a | b
  deriving DecidableEq

namespace Letter

def toChar : Letter → Char
  | c => 'C'
  | d => 'D'
  | e => 'E'
  | f => 'F'
  | g => 'G'
  | a => 'A'
  | b => 'B'

/-- Only the capital letters from A to G name notes. -/
def ofChar? : Char → Option Letter
  | 'C' => some c
  | 'D' => some d
  | 'E' => some e
  | 'F' => some f
  | 'G' => some g
  | 'A' => some a
  | 'B' => some b
  | _ => none

@[simp] theorem ofChar?_toChar (letter : Letter) : ofChar? letter.toChar = some letter := by
  cases letter <;> rfl

end Letter

/-- An accidental lowers or raises a note by up to a whole tone. -/
inductive Accidental where
  | doubleFlat | flat | natural | sharp | doubleSharp
  deriving DecidableEq

namespace Accidental

/-- The change of pitch in whole tones. -/
def tones : Accidental → Float
  | doubleFlat => -1
  | flat => -0.5
  | natural => 0
  | sharp => 0.5
  | doubleSharp => 1

def ofTones? (tones : Float) : Option Accidental :=
  if tones == -1 then some doubleFlat
  else if tones == -0.5 then some flat
  else if tones == 0 then some natural
  else if tones == 0.5 then some sharp
  else if tones == 1 then some doubleSharp
  else none

/-- The code of an accidental in a score. A natural note has none. -/
def code? : Accidental → Option Char
  | doubleFlat => some 'd'
  | flat => some 'b'
  | natural => none
  | sharp => some '#'
  | doubleSharp => some '*'

def ofCode? : Char → Option Accidental
  | 'd' => some doubleFlat
  | 'b' => some flat
  | '#' => some sharp
  | '*' => some doubleSharp
  | _ => none

/-- The glyph of an accidental. A natural note shows none. -/
def glyph : Accidental → String
  | doubleFlat => "𝄫"
  | flat => "♭"
  | natural => ""
  | sharp => "♯"
  | doubleSharp => "𝄪"

/-- An accidental is known by its glyph and by its codes. -/
def ofGlyph? (text : String) : Option Accidental :=
  if text ∈ ["𝄫", "bb", "d"] then some doubleFlat
  else if text ∈ ["♭", "b"] then some flat
  else if text ∈ ["♮", ""] then some natural
  else if text ∈ ["♯", "#"] then some sharp
  else if text ∈ ["𝄪", "*"] then some doubleSharp
  else none

theorem ofCode?_eq_some_iff {character : Char} {accidental : Accidental} :
    ofCode? character = some accidental ↔ accidental.code? = some character := by
  constructor
  · intro known
    unfold ofCode? at known
    split at known <;> simp_all [code?] <;> subst known <;> rfl
  · intro coded
    cases accidental <;> simp [code?] at coded <;> subst coded <;> rfl

end Accidental

/-- A pitch is named by a letter, an accidental and the octave that it lies in. -/
structure Pitch where
  letter : Letter
  accidental : Accidental
  octave : Fin 10
  deriving DecidableEq

namespace Pitch

/-- The pitch of a note that names none. -/
def middleC : Pitch := ⟨.c, .natural, 4⟩

/-- A pitch exists in the octaves that a single digit names. -/
def of (letter : Letter) (accidental : Accidental) (octave : Int) : Except Fault Pitch := do
  let ⟨inside⟩ ← Fault.require (0 ≤ octave ∧ octave.toNat < 10) (.octave octave)
  return ⟨letter, accidental, ⟨octave.toNat, inside.2⟩⟩

/-- A pitch is shown by its letter, its glyph and its octave. -/
def text (pitch : Pitch) : String :=
  String.singleton pitch.letter.toChar ++ pitch.accidental.glyph ++ toString pitch.octave.val

end Pitch

end Rhythm
