import Rhythm.Text.Numeral

/-
This file says which texts are numerals and words.
-/

namespace Rhythm.Text.Numeral

variable {text : List Char}

/-- A numeral is a text of digits that is not empty. -/
theorem read?_eq_some_iff {number : Nat} :
    read? text = some number ↔
      text ≠ [] ∧ (∀ character ∈ text, character.isDigit = true) ∧
        Nat.ofDigitChars 10 text 0 = number := by
  unfold read?
  split
  case isTrue digits =>
    obtain ⟨nonempty, all⟩ := Bool.and_eq_true_iff.mp digits
    have filled : text ≠ [] := by
      rintro rfl
      cases nonempty
    simpa [filled] using fun _ => List.all_eq_true.mp all
  case isFalse other =>
    constructor
    · intro read
      cases read
    · intro spelled
      obtain ⟨nonempty, all, -⟩ := spelled
      refine absurd (Bool.and_eq_true_iff.mpr ⟨?_, List.all_eq_true.mpr all⟩) other
      simp [nonempty]

theorem dropPlus_of_not_mem (unsigned : '+' ∉ text) : dropPlus text = text := by
  unfold dropPlus
  split
  case h_1 rest => exact absurd List.mem_cons_self unsigned
  case h_2 => rfl

/-- A word has at most one plus sign, and the number after it fits into 32 bits. -/
theorem readWord?_eq_some_iff {word : UInt32} :
    readWord? text = some word ↔ read? (dropPlus text) = some word.toNat := by
  unfold readWord?
  split
  case h_1 number digits =>
    rw [digits, Option.some_inj]
    split
    case isTrue small =>
      have back : (UInt32.ofNat number).toNat = number := UInt32.toNat_ofNat_of_lt' small
      rw [Option.some_inj, ← UInt32.toNat_inj, back]
    case isFalse large =>
      constructor
      · intro read
        cases read
      · rintro rfl
        exact absurd word.toNat_lt large
  case h_2 none =>
    simp [none]

end Rhythm.Text.Numeral
