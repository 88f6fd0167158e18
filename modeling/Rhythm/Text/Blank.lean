/-
This file decides which characters are blank. A character is blank when it has the Unicode
property White_Space.
-/

namespace Rhythm.Text

/-- This table lists the first and the last code point of every run of blank characters. -/
def blankRuns : List (Nat × Nat) :=
  [(0x09, 0x0D), (0x20, 0x20), (0x85, 0x85), (0xA0, 0xA0), (0x1680, 0x1680),
    (0x2000, 0x200A), (0x2028, 0x2029), (0x202F, 0x202F), (0x205F, 0x205F), (0x3000, 0x3000)]

/-- A character is blank when a run of blank characters holds it. -/
def isBlank (character : Char) : Bool :=
  blankRuns.any fun run => run.1 ≤ character.toNat && character.toNat ≤ run.2

def allBlank (text : List Char) : Bool :=
  text.all isBlank

end Rhythm.Text
