/-
# How the classes of bytes lie to each other

No blank is of another class, and an octal digit is a decimal one.
-/

import ClassIndex.Byte

namespace ClassIndex
namespace Byte

/-- What holds of the 256 numbers below 256 holds of every byte. -/
theorem forall_of_fin {p : UInt8 → Prop} (h : ∀ n : Fin 256, p (UInt8.ofNat n)) (b : UInt8) :
    p b := by
  have hb := h ⟨b.toNat, b.toNat_lt⟩
  rwa [show UInt8.ofNat b.toNat = b from UInt8.ofNat_toNat] at hb

/-- The blanks. -/
def blanks : List UInt8 := [0x20, 0x09, 0x0a, 0x0d, 0x0b, 0x0c]

theorem mem_blanks {b : UInt8} (hb : isSpace b = true) : b ∈ blanks := by
  simpa [isSpace, blanks, or_assoc] using hb

/-- A class that the six blanks are not in is a class without blanks. -/
theorem not_of_isSpace {p : UInt8 → Bool} (hp : blanks.all (fun b => !p b) = true) {b : UInt8}
    (hb : isSpace b = true) : p b = false := by
  simpa using List.all_eq_true.1 hp b (mem_blanks hb)

theorem isSpace_eq_false {p : UInt8 → Bool} (hp : blanks.all (fun b => !p b) = true) {b : UInt8}
    (hb : p b = true) : isSpace b = false := by
  cases hspace : isSpace b with
  | false => rfl
  | true => rw [not_of_isSpace hp hspace] at hb; cases hb

/-- A byte of a class is not a byte outside it. -/
theorem ne_of_class {p : UInt8 → Bool} {b b' : UInt8} (hb : p b = true) (hb' : p b' = false) :
    b ≠ b' := by
  rintro rfl
  rw [hb] at hb'
  cases hb'

theorem isDigit_of_isOctalDigit {b : UInt8} (hb : isOctalDigit b = true) : isDigit b = true := by
  simp only [isOctalDigit, isDigit, Bool.and_eq_true, decide_eq_true_eq] at hb ⊢
  exact ⟨hb.1, UInt8.le_trans hb.2 (by decide)⟩

/-- All decimal digits but two are octal. -/
theorem isOctalDigit_of_isDigit {b : UInt8} (hb : isDigit b = true)
    (hhigh : (b == 0x38 || b == 0x39) = false) : isOctalDigit b = true := by
  simp only [isDigit, isOctalDigit, Bool.and_eq_true, decide_eq_true_eq, Bool.or_eq_false_iff,
    beq_eq_false_iff_ne, ne_eq, UInt8.le_iff_toNat_le, ← UInt8.toNat_inj, UInt8.reduceToNat]
    at hb hhigh ⊢
  omega

theorem isDigit_eq_false_of_beginsWord {b : UInt8} (hb : beginsWord b = true) :
    isDigit b = false := by
  simp only [beginsWord, isLetter, isDigit, Bool.or_eq_true, Bool.and_eq_true, Bool.and_eq_false_iff,
    decide_eq_true_eq, decide_eq_false_iff_not, beq_iff_eq, UInt8.le_iff_toNat_le] at hb ⊢
  right
  intro hle
  have hbyte : (0x39 : UInt8).toNat = 57 := rfl
  rcases hb with (⟨h, -⟩ | ⟨h, -⟩) | rfl
  · have : (0x41 : UInt8).toNat = 65 := rfl
    omega
  · have : (0x61 : UInt8).toNat = 97 := rfl
    omega
  · exact absurd hle (by decide)

end Byte
end ClassIndex
