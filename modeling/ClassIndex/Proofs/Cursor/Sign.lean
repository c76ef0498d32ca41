/-
# The table of signs

The signs that the scanner reads, but for the slash, open with one of twenty bytes
(`mem_singles`), and what is to be known of each of them is looked up in their table.
-/

import ClassIndex.Cursor.Sign
import ClassIndex.Proofs.Byte

namespace ClassIndex
namespace Cursor

/-- The signs of one byte but the slash. -/
def singles : List (UInt8 × Token.Kind) :=
  [(0x2a, .star), (0x25, .percent), (0x2c, .comma), (0x3b, .semicolon), (0x3a, .colon),
   (0x5b, .openSquare), (0x5d, .closeSquare), (0x7b, .openCurly), (0x7d, .closeCurly),
   (0x28, .openParen), (0x29, .closeParen), (0x2e, .dot), (0x7c, .disjunction),
   (0x26, .conjunction), (0x3d, .assign), (0x3c, .less), (0x3e, .greater), (0x2d, .minus),
   (0x2b, .plus), (0x21, .negate)]

theorem ite_some_cases {α : Type} {p : Prop} [Decidable p] {a k : α} {o : Option α}
    (h : (if p then some a else o) = some k) : (p ∧ a = k) ∨ o = some k := by
  by_cases hp : p
  · rw [if_pos hp] at h
    exact .inl ⟨hp, Option.some.inj h⟩
  · rw [if_neg hp] at h
    exact .inr h

theorem mem_singles {b : UInt8} {kind : Token.Kind} (h : single? b = some kind) :
    (b, kind) ∈ singles := by
  unfold single? at h
  iterate 20
    rcases ite_some_cases h with ⟨rfl, rfl⟩ | h
    · decide
  cases h

theorem single?_ne (b : UInt8) : single? b ≠ some .endOfInput := by
  intro h
  have hall : ∀ p ∈ singles, p.2 ≠ .endOfInput := by decide
  exact hall _ (mem_singles h) rfl

theorem mem_doubles {single kind : Token.Kind} {b : UInt8}
    (h : (doubles single).lookup b = some kind) : (b, kind) ∈ doubles single := by
  obtain ⟨l₁, l₂, hl, -⟩ := List.lookup_eq_some_iff.1 h
  simp [hl]

theorem doubles_ne {single kind : Token.Kind} {b : UInt8}
    (h : (doubles single).lookup b = some kind) : kind ≠ .endOfInput := by
  have hall : ∀ p ∈ doubles single, p.2 ≠ .endOfInput := by cases single <;> decide
  exact hall _ (mem_doubles h)

/-- No blank makes a sign longer. -/
theorem lookup_doubles_of_isSpace (single : Token.Kind) {b : UInt8} (hb : Byte.isSpace b = true) :
    (doubles single).lookup b = none := by
  have hall : ∀ p ∈ doubles single, Byte.isSpace p.1 = false := by cases single <;> decide
  rw [List.lookup_eq_none_iff]
  intro p hp
  rw [bne_iff_ne]
  exact Byte.ne_of_class hb (hall p hp)

end Cursor
end ClassIndex
