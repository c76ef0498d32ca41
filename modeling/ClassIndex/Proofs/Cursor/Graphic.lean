/-
# Tokens but strings are printed as they are

A string may denote any byte, and a malformed token may hold what was read of a string. The lexeme
of every other token is a row of printed characters (`graphic_token`), so it is shown as it is and
stays on one line.
-/

import ClassIndex.Proofs.Cursor.Gathers
import ClassIndex.Proofs.Cursor.Kind
import ClassIndex.Proofs.Text.Printed
import ClassIndex.Proofs.Text.Utf8

namespace ClassIndex

theorem Byte.toNat_of_isGraphic {b : UInt8} (hb : Byte.isGraphic b = true) :
    0x21 ≤ b.toNat ∧ b.toNat ≤ 0x7e := by
  simpa only [Byte.isGraphic, Bool.and_eq_true, decide_eq_true_eq, UInt8.le_iff_toNat_le,
    UInt8.reduceToNat] using hb

theorem Byte.isPrinted_of_isGraphic {b : UInt8} (hb : Byte.isGraphic b = true) :
    Text.isPrinted (Char.ofNat b.toNat) = true := by
  obtain ⟨hlow, hhigh⟩ := Byte.toNat_of_isGraphic hb
  have hvalid : b.toNat.isValidChar := .inl (by omega)
  have hchar : (Char.ofNat b.toNat).toNat = b.toNat := by
    rw [Char.ofNat, dif_pos hvalid]
    rfl
  rw [Text.isPrinted, hchar, Bool.and_eq_true, decide_eq_true_eq, decide_eq_true_eq]
  omega

/-- A row of printed characters is shown as it is. -/
theorem Text.printed_lossy {bytes : List UInt8} (h : ∀ b ∈ bytes, Byte.isGraphic b = true) :
    Printed (lossy bytes) := by
  refine printed_ofList ?_
  induction bytes with
  | nil => rw [decode]; exact List.forall_mem_nil _
  | cons b bytes ih =>
    obtain ⟨hb, hrest⟩ := List.forall_mem_cons.1 h
    have hlt : b.toNat < 0x80 := by have := (Byte.toNat_of_isGraphic hb).2; omega
    rw [decode_cons, decodeHead_one hlt]
    exact List.forall_mem_cons.2 ⟨Byte.isPrinted_of_isGraphic hb, ih hrest⟩

namespace Cursor

/-- The bytes kept are printed. -/
def Graphic (c : Cursor) : Prop := ∀ b ∈ c.lexeme.toList, Byte.isGraphic b = true

variable {kind : Token.Kind} {b : UInt8} {c d : Cursor}

theorem Graphic.push (h : Graphic c) (hlexeme : d.lexeme = c.lexeme)
    (hb : Byte.isGraphic b = true) : Graphic (d.keep b) := by
  intro b' hb'
  rw [keep, Buffer.toList_push, hlexeme, List.mem_append, List.mem_singleton] at hb'
  rcases hb' with hb' | rfl
  · exact h b' hb'
  · exact hb

theorem Graphic.gathers : Gathers Graphic where
  keep := by
    intro c d b h hc hb
    have hl := c.lexeme_next
    rw [hc] at hl
    exact h.push hl hb
  giveBack := by
    intro c d x h hc
    have hl := c.lexeme_next
    rw [hc] at hl
    rwa [Graphic, lexeme_giveBack, hl]
  report := fun _ h => h

theorem Graphic.of_nil (h : c.lexeme.toList = []) : Graphic c := by
  rw [Graphic, h]
  exact List.forall_mem_nil _

theorem graphic_slash (hl : c.lexeme.toList = []) (h : c.slash = (some kind, d)) : Graphic d := by
  have hnext := c.lexeme_next
  unfold slash at h
  split at h
  · rename_i b e hc
    rw [hc] at hnext
    split at h
    · cases h
    · split at h
      · cases h
      · cases h
        exact (Graphic.of_nil hl).push ((lexeme_giveBack e _).trans hnext) (by decide)
  · rename_i e hc
    rw [hc] at hnext
    cases h
    exact (Graphic.of_nil hl).push hnext (by decide)

theorem graphic_piece (hl : c.lexeme.toList = []) (h : c.piece b = (some kind, d))
    (hquoted : kind ≠ .quoted) (herror : kind ≠ .error) : Graphic d := by
  have hkeep (hb : Byte.isGraphic b = true) : Graphic (c.keep b) := (Graphic.of_nil hl).push rfl hb
  unfold piece at h
  split at h
  · cases h
    rcases quoted_cases b c with hcase | hcase
    · exact absurd hcase hquoted
    · exact absurd hcase herror
  · split at h
    · exact graphic_slash hl h
    · split at h
      · rename_i hdigit
        cases h
        exact Graphic.gathers.number (hkeep (Byte.isGraphic_of_isDigit b hdigit))
      · split at h
        · rename_i hword
          cases h
          exact Graphic.gathers.word (hkeep (Byte.isGraphic_of_beginsWord b hword))
        · unfold punctuation at h
          split at h
          · rename_i single hsingle
            have hall : ∀ p ∈ singles, Byte.isGraphic p.1 = true := by decide
            cases h
            exact Graphic.gathers.sign (hkeep (hall _ (mem_singles hsingle))) single
          · cases h

/-- **A token that is neither a string nor malformed consists of printed characters.** -/
theorem graphic_token (h : c.token = (some kind, d)) (hquoted : kind ≠ .quoted)
    (herror : kind ≠ .error) : Graphic d := by
  fun_induction token c with
  | case1 c b e he kind' f hf =>
    cases h
    have hl := c.begin.lexeme_next
    rw [he] at hl
    exact graphic_piece (congrArg Buffer.toList hl) hf hquoted herror
  | case2 c b e he f hf ih => exact ih h
  | case3 => cases h

end Cursor

end ClassIndex
