/-
# What the readers of a lexeme keep

The readers of numbers, words and signs do three things: they keep a byte that they have read, they
give it back, and they report a fault. They keep printed characters only (`Byte.isGraphic`). A
property of cursors that these steps keep is kept by all of these readers (`Gathers`):

| reader | keeps |
| --- | --- |
| number | digits of its radix, `x`, `.`, `e`, a sign |
| word | letters, digits, underscores |
| sign | a second byte that makes it longer |
-/

import ClassIndex.Cursor.Number
import ClassIndex.Proofs.Cursor.Sign

namespace ClassIndex

/-- A byte of ASCII that is printed, and not as a blank. -/
def Byte.isGraphic (b : UInt8) : Bool := 0x21 ≤ b && b ≤ 0x7e

theorem Byte.isGraphic_of_inWord (b : UInt8) (hb : Byte.inWord b = true) :
    Byte.isGraphic b = true := by
  simp only [Byte.inWord, Byte.isLetter, Byte.isDigit, Byte.isGraphic, Bool.or_eq_true,
    Bool.and_eq_true, decide_eq_true_eq, beq_iff_eq, UInt8.le_iff_toNat_le, ← UInt8.toNat_inj,
    UInt8.reduceToNat] at hb ⊢
  omega

theorem Byte.isGraphic_of_isHexDigit (b : UInt8) (hb : Byte.isHexDigit b = true) :
    Byte.isGraphic b = true := by
  simp only [Byte.isHexDigit, Byte.isDigit, Byte.isGraphic, Bool.or_eq_true, Bool.and_eq_true,
    decide_eq_true_eq, UInt8.le_iff_toNat_le, UInt8.reduceToNat] at hb ⊢
  omega

theorem Byte.isGraphic_of_isDigit (b : UInt8) (hb : Byte.isDigit b = true) :
    Byte.isGraphic b = true :=
  Byte.isGraphic_of_inWord b (by simp [Byte.inWord, hb])

theorem Byte.isGraphic_of_beginsWord (b : UInt8) (hb : Byte.beginsWord b = true) :
    Byte.isGraphic b = true := by
  refine Byte.isGraphic_of_inWord b ?_
  simp only [Byte.beginsWord, Bool.or_eq_true] at hb
  rcases hb with hb | hb <;> simp [Byte.inWord, hb]

/-- A fault in a number of which this has been kept. -/
inductive Fault.IsMisspelt (lexeme : String) : Fault → Prop
  | hex : IsMisspelt lexeme .malformedHex
  | octal : IsMisspelt lexeme (.malformedOctal lexeme)
  | float : IsMisspelt lexeme (.malformedFloat lexeme)

namespace Cursor

/-- The steps of a reader keep a property. -/
structure Gathers (P : Cursor → Prop) : Prop where
  keep {c d : Cursor} {b : UInt8} : P c → c.next = (some b, d) → Byte.isGraphic b = true →
    P (d.keep b)
  giveBack {c d : Cursor} {x : Option UInt8} : P c → c.next = (x, d) → P (d.giveBack x)
  report {c : Cursor} {f : Fault} (hf : f.IsMisspelt c.lexeme.text) : P c → P (c.report f)

namespace Gathers

variable {P : Cursor → Prop} {c : Cursor}

theorem keepWhile (hP : Gathers P) {p : UInt8 → Bool}
    (hp : ∀ b, p b = true → Byte.isGraphic b = true) (h : P c) : P (c.keepWhile p) := by
  fun_induction Cursor.keepWhile p c with
  | case1 c b d hc hb ih => exact ih (hP.keep h hc (hp b hb))
  | case2 c b d hc => exact hP.giveBack h hc
  | case3 c d hc => exact hP.giveBack h hc

/-! ## Numbers -/

theorem hexNumber (hP : Gathers P) (h : P c) : P c.hexNumber.2 := by
  have hdigits := hP.keepWhile Byte.isGraphic_of_isHexDigit h
  unfold Cursor.hexNumber
  dsimp only
  split
  · exact hP.report .hex hdigits
  · exact hdigits

theorem octalNumber (hP : Gathers P) (h : P c) : P c.octalNumber.2 := by
  have hdigits := hP.keepWhile Byte.isGraphic_of_isDigit h
  unfold Cursor.octalNumber
  dsimp only
  split
  · exact hP.report .octal hdigits
  · exact hdigits

theorem exponentDigits (hP : Gathers P) (h : P c) : P c.exponentDigits.2 := by
  have hdigits := hP.keepWhile Byte.isGraphic_of_isDigit h
  unfold Cursor.exponentDigits
  dsimp only
  split
  · exact hP.report .float hdigits
  · exact hdigits

/-- One of two printed bytes is printed. -/
theorem graphic_of_or {a a' b : UInt8} (hb : (b = a || b = a') = true)
    (ha : Byte.isGraphic a = true) (ha' : Byte.isGraphic a' = true) : Byte.isGraphic b = true := by
  simp only [Bool.or_eq_true, decide_eq_true_eq] at hb
  rcases hb with rfl | rfl
  · exact ha
  · exact ha'

theorem exponent (hP : Gathers P) (h : P c) : P c.exponent.2 := by
  unfold Cursor.exponent
  split
  · rename_i b d hc
    split
    · rename_i hsign
      exact hP.exponentDigits (hP.keep h hc (graphic_of_or hsign (by decide) (by decide)))
    · exact hP.exponentDigits (hP.giveBack h hc)
  · rename_i d hc
    exact hP.exponentDigits (hP.giveBack h hc)

theorem fraction (hP : Gathers P) (h : P c) : P c.fraction.2 := by
  have hdigits := hP.keepWhile Byte.isGraphic_of_isDigit h
  unfold Cursor.fraction
  split
  · rename_i b d hc
    split
    · rename_i hletter
      exact hP.exponent (hP.keep hdigits hc (graphic_of_or hletter (by decide) (by decide)))
    · exact hP.giveBack hdigits hc
  · rename_i d hc
    exact hP.giveBack hdigits hc

theorem wholeNumber (hP : Gathers P) (h : P c) : P c.wholeNumber.2 := by
  have hdigits := hP.keepWhile Byte.isGraphic_of_isDigit h
  unfold Cursor.wholeNumber
  split
  · rename_i b d hc
    split
    · rename_i hpoint
      subst hpoint
      exact hP.fraction (hP.keep hdigits hc (by decide))
    · exact hP.giveBack hdigits hc
  · rename_i d hc
    exact hP.giveBack hdigits hc

theorem zeroNumber (hP : Gathers P) (h : P c) : P c.zeroNumber.2 := by
  unfold Cursor.zeroNumber
  split
  · rename_i b d hc
    have hback := hP.giveBack h hc
    split
    · rename_i hletter
      exact hP.hexNumber (hP.keep h hc (graphic_of_or hletter (by decide) (by decide)))
    · split
      · rename_i hpoint
        subst hpoint
        exact hP.fraction (hP.keep h hc (by decide))
      · split
        · exact hP.octalNumber hback
        · exact hback
  · rename_i d hc
    exact hP.giveBack h hc

/-- **A number keeps what its steps keep,** from its first digit on. -/
theorem number (hP : Gathers P) {first : UInt8} (h : P (c.keep first)) :
    P (c.number first).2 := by
  unfold Cursor.number
  split
  · exact hP.zeroNumber h
  · exact hP.wholeNumber h

/-! ## Words and signs -/

/-- **A word keeps what its steps keep,** from its first byte on. -/
theorem word (hP : Gathers P) {first : UInt8} (h : P (c.keep first)) : P (c.word first).2 :=
  hP.keepWhile Byte.isGraphic_of_inWord h

/-- **A sign keeps what its steps keep,** from its first byte on. -/
theorem sign (hP : Gathers P) (h : P c) (single : Token.Kind) : P (c.sign single).2 := by
  have hall : ∀ p ∈ doubles single, Byte.isGraphic p.1 = true := by cases single <;> decide
  unfold Cursor.sign
  split
  · exact h
  · split
    · rename_i b d hc
      split
      · rename_i kind hkind
        exact hP.keep h hc (hall _ (mem_doubles hkind))
      · exact hP.giveBack h hc
    · rename_i d hc
      exact hP.giveBack h hc

end Gathers
end Cursor
end ClassIndex
