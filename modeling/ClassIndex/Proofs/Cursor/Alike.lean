/-
# What a token leaves behind for the next

A reader sees of its lexeme buffer only the bytes in it, never the room the buffer has made
(`Alike.lockstep`), and a token forgets those bytes before it begins (`Rejoined.token`). So nothing
but the source is carried over from one token to the next.
-/

import ClassIndex.Proofs.Cursor.Lockstep

namespace ClassIndex

namespace Cursor

/-- The cursor in the middle of some other token. -/
def within (c : Cursor) (lexeme : Buffer) (start : Position) : Cursor := { c with lexeme, start }

/-- Two cursors differ at most in the room of their lexeme buffers. -/
def Alike (c d : Cursor) : Prop :=
  ∃ l : Buffer, c.lexeme.toList = l.toList ∧ d = c.within l c.start

/-- Two cursors differ at most in the token that they are in the middle of. -/
def Rejoined (c d : Cursor) : Prop := ∃ l p, d = c.within l p

theorem next_within (c : Cursor) (l : Buffer) (p : Position) :
    (c.within l p).next = (c.next.1, c.next.2.within l p) := by
  simp only [next, within]
  split <;> rfl

theorem giveBack_within (c : Cursor) (l : Buffer) (p : Position) (x : Option UInt8) :
    (c.within l p).giveBack x = (c.giveBack x).within l p := by
  cases x <;> rfl

theorem Rejoined.stepwise : Stepwise Rejoined where
  next := by
    rintro c _ ⟨l, p, rfl⟩
    rw [next_within]
    exact ⟨rfl, l, p, rfl⟩
  giveBack := by
    rintro c _ ⟨l, p, rfl⟩
    rw [next_within, giveBack_within]
    exact ⟨l, p, rfl⟩

theorem Alike.lockstep : Lockstep Alike where
  next := by
    rintro c _ ⟨l, hl, rfl⟩
    rw [next_within]
    exact ⟨rfl, l, by simpa using hl, by simp⟩
  giveBack := by
    rintro c _ ⟨l, hl, rfl⟩
    rw [next_within, giveBack_within]
    exact ⟨l, by simpa using hl, by simp⟩
  giveBackTwo := by
    rintro c _ ⟨l, hl, rfl⟩ -
    simp only [next_within, giveBack_within]
    exact ⟨l, by simpa using hl, by simp⟩
  lexeme := by
    rintro c _ ⟨l, hl, rfl⟩
    exact hl
  keep := by
    rintro c _ b ⟨l, hl, rfl⟩
    exact ⟨l.push b, by simp [keep, hl], rfl⟩
  keepAll := by
    rintro c _ bs ⟨l, hl, rfl⟩
    exact ⟨l.append bs, by simp [keepAll, hl], rfl⟩
  forget := by
    rintro c _ ⟨l, hl, rfl⟩
    exact ⟨l.clear, rfl, rfl⟩
  mark := by
    rintro c _ ⟨l, hl, rfl⟩
    exact ⟨l, hl, rfl⟩
  report := by
    rintro c _ f - ⟨l, hl, rfl⟩
    exact ⟨l, hl, rfl⟩
  warn := by
    rintro c _ b ⟨l, hl, rfl⟩
    unfold warnOf
    rw [show (c.within l c.start).warns = c.warns from rfl]
    split <;> exact ⟨l, hl, rfl⟩

/-- **A token begins afresh:** nothing of the token before it is left. -/
theorem Rejoined.begin {c d : Cursor} (h : Rejoined c d) : Alike c.begin d.begin := by
  obtain ⟨l, p, hd⟩ := Rejoined.stepwise.skipSpace h
  refine ⟨l.clear, rfl, ?_⟩
  simp only [Cursor.begin, hd]
  rfl

theorem Rejoined.token {c d : Cursor} (h : Rejoined c d) : Both Alike c.token d.token := by
  have hb := h.begin
  rcases hc : c.begin.next with ⟨_ | b, e⟩
  · obtain ⟨e', hd, he, -⟩ := Alike.lockstep.next_eq hb hc
    rw [token_eq c, token_eq d, hc, hd]
    exact ⟨rfl, he⟩
  · obtain ⟨e', hd, he, -⟩ := Alike.lockstep.next_eq hb hc
    rw [token_eq c, token_eq d, hc, hd]
    rcases hf : e.piece b with ⟨_ | kind, f⟩
    · obtain ⟨f', hf', hff⟩ := (Alike.lockstep.piece b he).exists_eq hf
      simpa [hf, hf'] using Alike.lockstep.token hff
    · obtain ⟨f', hf', hff⟩ := (Alike.lockstep.piece b he).exists_eq hf
      simpa [hf, hf'] using ⟨rfl, hff⟩

end Cursor
end ClassIndex
