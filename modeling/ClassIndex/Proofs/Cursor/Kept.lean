/-
# Lexemes hold what was read

Each reader keeps bytes for the lexeme on its own, some when they are read and some only after a
byte has been given back. Between two such steps the lexeme and what is left of the source make up
one row of bytes, which begins with the token (`Kept`). The single steps do not change it
(`Kept.gathers`), and so no reader but that of strings does:

| reader | is left by | keeps |
| --- | --- | --- |
| number | a byte that does not fit, given back | every byte it took, fault or not |
| word | a byte that does not fit, given back | every byte it took |
| sign | a byte that makes no longer sign, given back | its one or two bytes |
| slash | any byte but a slash or a star, given back | the slash, afterwards |
-/

import ClassIndex.Proofs.Cursor.Begin
import ClassIndex.Proofs.Cursor.Gathers
import ClassIndex.Proofs.Cursor.Kind

namespace ClassIndex
namespace Cursor

/-- The bytes kept and the bytes left make up this row. -/
def Kept (text row : List UInt8) (c : Cursor) : Prop :=
  ∃ r, c.source.Stands text r ∧ c.lexeme.toList ++ r = row

section

variable {text row r : List UInt8} {b : UInt8} {c d : Cursor}

/-- Where nothing is kept, a byte that was read may be kept. -/
theorem Kept.of_stands (h : c.source.Stands text r) (hl : c.lexeme.toList = []) (b : UInt8) :
    Kept text (b :: r) (c.keep b) := by
  refine ⟨r, h, ?_⟩
  rw [keep, Buffer.toList_push, hl]
  rfl

/-- A byte that is read is to be kept or given back. -/
theorem Kept.gathers (text row : List UInt8) : Gathers (Kept text row) where
  keep := by
    rintro c d b ⟨r, hs, hrow⟩ hc -
    obtain ⟨hhead, hread, -⟩ := stands_next hs
    have hl := c.lexeme_next
    rw [hc] at hhead hread hl
    obtain ⟨r, rfl⟩ := List.head?_eq_some_iff.1 hhead.symm
    refine ⟨r, hread, ?_⟩
    rw [keep, Buffer.toList_push, hl, List.append_assoc]
    exact hrow
  giveBack := by
    rintro c d x ⟨r, hs, hrow⟩ hc
    obtain ⟨-, -, hback⟩ := stands_next hs
    have hl := c.lexeme_next
    rw [hc] at hback hl
    exact ⟨r, hback, by rw [lexeme_giveBack, hl, hrow]⟩
  report := fun _ h => h

/-- A slash is kept behind the byte that was read after it. -/
theorem Kept.slash (h : c.source.Stands text r) (hl : c.lexeme.toList = [])
    (hsome : c.slash.1.isSome = true) : Kept text (0x2f :: r) c.slash.2 := by
  obtain ⟨-, -, hback⟩ := stands_next h
  have hlexeme := c.lexeme_next
  unfold Cursor.slash at hsome ⊢
  split at hsome
  · rename_i b d hc
    rw [hc] at hback hlexeme
    split at hsome
    · cases hsome
    · split at hsome
      · cases hsome
      · rename_i hline hblock
        rw [if_neg hline, if_neg hblock]
        exact .of_stands hback (by rw [lexeme_giveBack, hlexeme, hl]) 0x2f
  · rename_i d hc
    rw [hc] at hback hlexeme
    exact .of_stands (c := d) hback (by rw [hlexeme, hl]) 0x2f

/-- **The lexeme of a token holds the bytes that it takes,** unless the token begins with a
quote. -/
theorem Opened.kept {w : List UInt8} {name : String} (h : Opened text w r b name c)
    (hquote : ¬ (b = 0x22 ∨ b = 0x27)) : Kept text (b :: r) (c.piece b).2 := by
  have hkeep := Kept.of_stands h.stands h.lexeme b
  rcases h.begins.cases with hb | hslash | hdigit | hword | ⟨kind, hsign⟩
  · exact absurd hb hquote
  · subst hslash
    have hsome := isSome_piece h.begins h.stands
    rw [piece_slash] at hsome ⊢
    exact .slash h.stands h.lexeme hsome
  · rw [piece_digit hdigit]
    exact (Kept.gathers text _).number hkeep
  · rw [piece_word hword]
    exact (Kept.gathers text _).word hkeep
  · rw [piece_sign hsign]
    exact (Kept.gathers text _).sign hkeep kind

/-- Up to where its reader stops, the token is its own lexeme. -/
theorem Opened.lexeme_piece {w v r' : List UInt8} {name : String}
    (h : Opened text w (v ++ r') b name c) (hquote : ¬ (b = 0x22 ∨ b = 0x27))
    (hs : (c.piece b).2.source.Stands text r') : (c.piece b).2.lexeme.toList = b :: v := by
  obtain ⟨u, hu, hrow⟩ := h.kept hquote
  obtain rfl : u = r' := hu.left.symm.trans hs.left
  exact List.append_cancel_right hrow

end

end Cursor
end ClassIndex
