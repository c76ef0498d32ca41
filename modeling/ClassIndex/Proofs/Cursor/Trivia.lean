/-
# Passing over blanks and comments before a token

Behind the closing quote of a string, blanks and comments are passed over by a reader of their own,
which gives back what it has looked at. A token passes over them too, on its way to its first byte.
The two agree: once the first has been at work, a token is read as if it had not
(`token_skipTrivia`).

| what is left | the reader of trivia | the token |
| --- | --- | --- |
| a comment with an end | goes on behind it | goes on behind it |
| a block without an end | reports it, leaves nothing | finds nothing left |
| a slash that opens no comment | gives back the slash and what follows it | reads both again |
| any other byte | gives it back | reads it again |
| nothing | meets the end | meets the end again |

To read again what was given back leads where the first reading led (`Source.read_giveBack`), and
the end of a source says nothing when it is met again.
-/

import ClassIndex.Proofs.Cursor.Alike
import ClassIndex.Proofs.Cursor.Quoted

namespace ClassIndex

namespace Source

variable {s t : Source} {b : UInt8}

/-- **A byte that was given back is read again,** and nothing else has changed. -/
theorem read_giveBack {p : Position} (hl : 1 ≤ p.line) (hc : 1 ≤ p.column)
    (hs : s.position = p.advance b) (hlast : b = 0x0a → s.lastColumn = p.column) :
    (s.giveBack b).read = (.byte b, s) := by
  have hback : (s.giveBack b).position = p := position_giveBack hl hc hs hlast
  obtain ⟨name, unread, failure?, returned, position, lastColumn, ended⟩ := s
  have hlast' : (if b = 0x0a then p.column else lastColumn) = lastColumn := by
    split
    · rename_i hb
      exact (hlast hb).symm
    · rfl
  obtain rfl : position = p.advance b := hs
  simp only [giveBack] at hback
  simp only [read, giveBack, pass, hback, hlast']

/-- Reading moves the position over the byte, and keeps the column of a line feed. -/
theorem position_of_read (h : s.read = (.byte b, t)) :
    t.position = s.position.advance b ∧ (b = 0x0a → t.lastColumn = s.position.column) := by
  unfold read at h
  repeat' split at h
  all_goals
    cases h
    try exact ⟨rfl, fun hb => if_pos hb⟩

/-- The end of a source is met again, without a failure. -/
theorem read_of_not_byte (h : ∀ b, s.read.1 ≠ .byte b) : s.read.2.read = (.ended, s.read.2) := by
  obtain ⟨name, unread, failure?, returned, position, lastColumn, ended⟩ := s
  cases returned with
  | cons b returned => exact absurd rfl (h b)
  | nil =>
    cases ended with
    | true => rfl
    | false =>
      cases unread with
      | cons b unread => exact absurd rfl (h b)
      | nil => cases failure? <;> rfl

end Source

namespace Cursor

variable {text r : List UInt8} {b : UInt8} {x : Option UInt8} {c d e : Cursor}

/-- What is left is told by what was read of it. -/
theorem stands_of_next (h : c.source.Stands text r) (hc : c.next = (x, d)) :
    r.head? = x ∧ d.source.Stands text r.tail ∧ (d.giveBack x).source.Stands text r := by
  have hnext := stands_next h
  rw [hc] at hnext
  exact ⟨hnext.1.symm, hnext.2.1, hnext.2.2⟩

/-! ## Reading again -/

/-- Where a byte was read, its source has moved over it. -/
theorem position_of_next (h : c.next = (some b, d)) :
    d.source.position = c.source.position.advance b ∧
      (b = 0x0a → d.source.lastColumn = c.source.position.column) := by
  unfold next at h
  split at h
  · rename_i hread
    cases h
    exact Source.position_of_read hread
  · cases h
  · cases h

theorem next_giveBack {p : Position} (hl : 1 ≤ p.line) (hc : 1 ≤ p.column)
    (hs : c.source.position = p.advance b) (hlast : b = 0x0a → c.source.lastColumn = p.column) :
    (c.giveBack (some b)).next = (some b, c) := by
  have hread : (c.giveBack (some b)).source.read = (.byte b, c.source) :=
    Source.read_giveBack hl hc hs hlast
  rw [next, hread]
  rfl

/-- The end of a source is met again, and reported no more. -/
theorem next_of_none (h : c.next = (none, d)) : d.next = (none, d) := by
  have hend : ∀ b, c.source.read.1 ≠ .byte b := by
    intro b hb
    unfold next at h
    split at h
    · cases h
    all_goals
      rename_i hread
      rw [hread] at hb
      cases hb
  have hagain := Source.read_of_not_byte hend
  have hsource : d.source = c.source.read.2 := by
    have := source_next c
    rwa [h] at this
  rw [← hsource] at hagain
  rw [next, hagain]

/-- **What was given back is read again,** whether it is a byte or the end. -/
theorem next_again (h : c.source.Stands text r) (hc : c.next = (x, d)) :
    (d.giveBack x).next = (x, d) := by
  cases x with
  | none => exact next_of_none hc
  | some b =>
    obtain ⟨w, -, hw⟩ := h.passed
    obtain ⟨hposition, hlast⟩ := position_of_next hc
    rw [hw] at hposition hlast
    exact next_giveBack (Position.one_le_line_after w) (Position.one_le_column_after w) hposition
      hlast

/-- A slash that was given back behind what follows it is read again. -/
theorem next_slash_again (h : c.source.Stands text r) (hc : c.next = (some 0x2f, d))
    (hd : d.next = (x, e)) :
    ((e.giveBack x).giveBack (some 0x2f)).next = (some 0x2f, e.giveBack x) := by
  obtain ⟨-, hs, -⟩ := stands_of_next h hc
  obtain ⟨-, -, hback⟩ := stands_of_next hs hd
  obtain ⟨w', hw', hp'⟩ := hs.passed
  obtain ⟨w, -, hw⟩ := h.passed
  have hposition : (e.giveBack x).source.position = (Position.after w).advance 0x2f := by
    rw [hback.position_eq hw', ← hp', (position_of_next hc).1, hw]
  exact next_giveBack (Position.one_le_line_after w) (Position.one_le_column_after w) hposition
    (by simp)

/-! ## What a token forgets -/

/-- What passes over blanks and comments looks at no lexeme and no start. -/
theorem within_skipping (l : Buffer) (p : Position) : Skipping fun c d => d = c.within l p where
  next := by
    rintro c _ rfl
    rw [next_within]
    exact ⟨rfl, rfl⟩
  giveBack := by
    rintro c _ rfl
    rw [next_within, giveBack_within]
  giveBackTwo := by
    rintro c _ rfl -
    simp only [next_within, giveBack_within]
  report := by
    rintro c _ f - rfl
    rfl

theorem skipBlock_within (c : Cursor) (l : Buffer) (p : Position) :
    ((c.within l p).skipBlock false).2 = (c.skipBlock false).2.within l p :=
  ((within_skipping l p).skipBlock false rfl).2

theorem begin_eq (c : Cursor) :
    c.begin = c.skipSpace.within c.lexeme.clear c.skipSpace.position := by
  rw [← lexeme_skipSpace c]
  rfl

theorem begin_within (c : Cursor) {l : Buffer} (hl : l.clear = c.lexeme.clear) (p : Position) :
    (c.within l p).begin = c.begin := by
  have hspace : (c.within l p).skipSpace = c.skipSpace.within l p :=
    (within_skipping l p).skipSpace rfl
  rw [begin_eq, begin_eq, hspace, show (c.within l p).lexeme = l from rfl, hl]
  rfl

/-- **A token forgets the lexeme and the start of the one before.** -/
theorem token_within (c : Cursor) {l : Buffer} (hl : l.clear = c.lexeme.clear) (p : Position) :
    (c.within l p).token = c.token := by
  rw [token_eq, begin_within c hl, ← token_eq]

/-- The cursor with faults that were found before its own. -/
def told (c : Cursor) (faults : List Diagnostic.Event) : Cursor :=
  { c with faults := faults ++ c.faults }

theorem next_told (c : Cursor) (faults : List Diagnostic.Event) :
    (c.told faults).next = (c.next.1, c.next.2.told faults) := by
  simp only [next, told]
  split <;> simp [report]

theorem giveBack_told (c : Cursor) (faults : List Diagnostic.Event) (x : Option UInt8) :
    (c.told faults).giveBack x = (c.giveBack x).told faults := by
  cases x <;> rfl

theorem report_told (c : Cursor) (faults : List Diagnostic.Event) (f : Fault) :
    (c.told faults).report f = (c.report f).told faults := by
  simp [report, told]

/-- **A token looks at no fault** that was found before. -/
theorem told_lockstep (faults : List Diagnostic.Event) : Lockstep fun c d => d = c.told faults where
  next := by
    rintro c _ rfl
    rw [next_told]
    exact ⟨rfl, rfl⟩
  giveBack := by
    rintro c _ rfl
    rw [next_told, giveBack_told]
  giveBackTwo := by
    rintro c _ rfl -
    simp only [next_told, giveBack_told]
  report := by
    rintro c _ f - rfl
    exact report_told c faults f
  lexeme := by
    rintro c _ rfl
    rfl
  keep := by
    rintro c _ b rfl
    rfl
  keepAll := by
    rintro c _ bs rfl
    rfl
  forget := by
    rintro c _ rfl
    rfl
  mark := by
    rintro c _ rfl
    rfl
  warn := by
    rintro c _ b rfl
    unfold warnOf
    rw [show (c.told faults).warns = c.warns from rfl, report_told]
    split <;> rfl

theorem token_told (c : Cursor) (faults : List Diagnostic.Event) :
    (c.told faults).token = (c.token.1, c.token.2.told faults) :=
  have h := (told_lockstep faults).token (c := c) rfl
  Prod.ext h.1.symm h.2

/-! ## The first byte behind the blanks -/

/-- What a token is read from is met behind the blanks. -/
theorem begin_next_eq (hc : c.skipSpace.next = (x, d)) :
    c.begin.next = (x, d.within c.lexeme.clear c.skipSpace.position) := by
  rw [begin_eq, next_within, hc]

theorem token_of_line (hc : c.skipSpace.next = (some 0x2f, d)) (hd : d.next = (some 0x2f, e)) :
    c.token = e.skipLine.token := by
  have hlexeme : e.skipLine.lexeme = c.lexeme := by
    rw [lexeme_skipLine, lexeme_of_next hd, lexeme_of_next hc, lexeme_skipSpace]
  have hline : (e.within c.lexeme.clear c.skipSpace.position).skipLine
      = e.skipLine.within c.lexeme.clear c.skipSpace.position :=
    (within_skipping _ _).skipLine rfl
  rw [token_eq, begin_next_eq hc]
  simp only [piece_slash, slash, next_within, hd, if_true, hline]
  exact token_within _ (by rw [hlexeme]; rfl) _

theorem token_of_block (hc : c.skipSpace.next = (some 0x2f, d)) (hd : d.next = (some 0x2a, e)) :
    c.token = (e.skipBlock false).2.token := by
  have hlexeme : (e.skipBlock false).2.lexeme = c.lexeme := by
    rw [lexeme_skipBlock, lexeme_of_next hd, lexeme_of_next hc, lexeme_skipSpace]
  rw [token_eq, begin_next_eq hc]
  simp only [piece_slash, slash, next_within, hd, show (0x2a : UInt8) ≠ 0x2f by decide, if_false,
    if_true, skipBlock_within]
  exact token_within _ (by rw [hlexeme]; rfl) _

theorem token_of_slash (hc : c.skipSpace.next = (some 0x2f, d)) (hd : d.next = (x, e))
    (hline : x ≠ some 0x2f) (hblock : x ≠ some 0x2a) :
    c.token = (some .slash,
      ((e.giveBack x).within c.lexeme.clear c.skipSpace.position).keep 0x2f) := by
  rw [token_eq, begin_next_eq hc]
  simp only [piece_slash, slash, next_within, hd]
  cases x with
  | none => rfl
  | some b =>
    have h₁ : b ≠ 0x2f := fun hb => hline (congrArg some hb)
    have h₂ : b ≠ 0x2a := fun hb => hblock (congrArg some hb)
    simp only [h₁, h₂, if_false, giveBack_within]

/-! ## Passing over trivia -/

/-- Behind a run that is passed over stands no byte of its class, and what was looked at there has
been given back. -/
theorem skipWhile_spec (p : UInt8 → Bool) (h : c.source.Stands text r) :
    ∃ x d, (c.skipWhile p).next = (x, d) ∧ d.giveBack x = c.skipWhile p ∧
      ∀ b ∈ x, p b = false := by
  fun_induction Cursor.skipWhile p c generalizing r with
  | case1 c b d hd _ ih =>
    exact ih (stands_of_next h hd).2.1
  | case2 c b d hd hb =>
    refine ⟨some b, d, next_again h hd, rfl, ?_⟩
    rintro b' hb'
    obtain rfl : b = b' := Option.some.inj hb'
    exact Bool.eq_false_iff.2 hb
  | case3 c d hd => exact ⟨none, d, next_of_none hd, rfl, fun b hb => by cases hb⟩

/-- Blanks that have been passed over are passed over. -/
theorem skipSpace_skipSpace (h : c.source.Stands text r) :
    c.skipSpace.skipSpace = c.skipSpace := by
  obtain ⟨x, d, hd, hback, hx⟩ := skipWhile_spec Byte.isSpace h
  rw [skipSpace, skipSpace, skipWhile_eq, hd]
  cases x with
  | none => exact hback
  | some b =>
    simp only [hx b rfl]
    exact hback

theorem token_skipSpace (h : c.source.Stands text r) : c.skipSpace.token = c.token := by
  have hbegin : c.skipSpace.begin = c.begin := by
    rw [begin_eq, begin_eq, skipSpace_skipSpace h, lexeme_skipSpace]
  rw [token_eq, hbegin, ← token_eq]

/-- Where a slash opens no comment, the reader of trivia gives it back. -/
theorem token_slash_again (h : c.source.Stands text r) (hc : c.skipSpace.next = (some 0x2f, d))
    (hd : d.next = (x, e)) (hline : x ≠ some 0x2f) (hblock : x ≠ some 0x2a) :
    ((e.giveBack x).giveBack (some 0x2f)).token = c.token ∧
      ((e.giveBack x).giveBack (some 0x2f)).source.Stands text (r.dropWhile Byte.isSpace) := by
  have hs : c.skipSpace.source.Stands text (r.dropWhile Byte.isSpace) :=
    stands_skipWhile Byte.isSpace h
  have hback := next_again (stands_of_next hs hc).2.1 hd
  have hagain := next_slash_again hs hc hd
  have htwo := stands_giveBack_two hs (by rw [hc])
  rw [hc] at htwo
  simp only [hd] at htwo
  generalize hg : (e.giveBack x).giveBack (some 0x2f) = g at hagain htwo ⊢
  have hspace : g.skipSpace = g := by
    rw [skipSpace, skipWhile_eq, hagain]
    exact hg
  have hlexeme : g.lexeme = c.lexeme := by
    rw [← hg, lexeme_giveBack, lexeme_giveBack, lexeme_of_next hd, lexeme_of_next hc,
      lexeme_skipSpace]
  have hposition : g.position = c.skipSpace.position := by
    obtain ⟨w, hw, hp⟩ := hs.passed
    exact (htwo.position_eq hw).trans hp.symm
  refine ⟨?_, htwo⟩
  rw [token_of_slash hc hd hline hblock, token_of_slash (by rw [hspace]; exact hagain) hback hline
    hblock, hspace, hlexeme, hposition]

/-- Behind the blanks neither a blank nor a comment stands, if no slash opens one. -/
theorem bare_dropWhile (hslash : (r.dropWhile Byte.isSpace).head? = some 0x2f →
      (r.dropWhile Byte.isSpace).tail.head? ≠ some 0x2f ∧
        (r.dropWhile Byte.isSpace).tail.head? ≠ some 0x2a) :
    Bare (r.dropWhile Byte.isSpace) := by
  intro b v hr
  have hspace := List.head?_dropWhile_not Byte.isSpace r
  rw [hr] at hspace hslash
  exact ⟨by simpa using hspace, fun hb => hslash (congrArg some hb)⟩

/-- Where no slash stands behind the blanks, the reader of trivia gives back what does. -/
theorem token_blank_again (h : c.source.Stands text r) (hc : c.skipSpace.next = (x, d))
    (hx : x ≠ some 0x2f) :
    (d.giveBack x).token = c.token ∧
      (d.giveBack x).source.Stands text (r.dropWhile Byte.isSpace) ∧
        Bare (r.dropWhile Byte.isSpace) := by
  have hs : c.skipSpace.source.Stands text (r.dropWhile Byte.isSpace) :=
    stands_skipWhile Byte.isSpace h
  obtain ⟨y, k, hk, hback, -⟩ := skipWhile_spec Byte.isSpace h
  obtain ⟨rfl, rfl⟩ : y = x ∧ k = d := by simpa using hk.symm.trans hc
  rw [hback]
  refine ⟨token_skipSpace h, hs, bare_dropWhile fun hslash => ?_⟩
  exact absurd ((stands_of_next hs hc).1.symm.trans hslash) hx

theorem lexeme_skipTrivia (c : Cursor) : c.skipTrivia.lexeme = c.lexeme := by
  have h : c.skipTrivia = c.skipTrivia.within c.lexeme c.start :=
    (within_skipping c.lexeme c.start).skipTrivia (c := c) (d := c) rfl
  rw [h]
  rfl

theorem warns_skipTrivia (c : Cursor) : c.skipTrivia.warns = c.warns := by
  have hread : ∀ d : Cursor, d.next.2.warns = d.warns := fun d => (passes_next d).warns
  have hback : ∀ (d : Cursor) x, (d.giveBack x).warns = d.warns := by rintro d (_ | b) <;> rfl
  have hsame : Skipping (Same fun d => d.warns = c.warns) := by
    refine (Same.lockstep ?_ ?_ ?_ ?_ ?_ ?_).toSkipping
    all_goals simp +contextual [hread, hback, report, mark]
  exact (hsame.skipTrivia ⟨rfl, rfl⟩).2

/-- **A token is read as if trivia had not been passed over,** and none stands before it. -/
theorem token_skipTrivia (h : c.source.Stands text r) :
    c.skipTrivia.token = c.token ∧
      ∃ r', c.skipTrivia.source.Stands text r' ∧ Bare r' := by
  fun_induction Cursor.skipTrivia c generalizing r with
  | case1 c d e hc hd ih =>
    have hs := (stands_of_next (stands_skipWhile Byte.isSpace h) hc).2.1
    rw [token_of_line hc hd]
    exact ih (stands_skipLine (stands_of_next hs hd).2.1)
  | case2 c d e f hblock hc hd _ ih =>
    have hs := (stands_of_next (stands_skipWhile Byte.isSpace h) hc).2.1
    obtain ⟨-, hstands, -⟩ := skipBlock_of_stands false (stands_of_next hs hd).2.1
    rw [hblock] at hstands
    rw [token_of_block hc hd, hblock]
    exact ih hstands
  | case3 c d e f hblock hc hd =>
    have hs := (stands_of_next (stands_skipWhile Byte.isSpace h) hc).2.1
    obtain ⟨hfound, hstands, -⟩ := skipBlock_of_stands false (stands_of_next hs hd).2.1
    rw [hblock] at hfound hstands
    have hnone : afterBlock false (r.dropWhile Byte.isSpace).tail.tail = none := by
      simpa using hfound.symm
    rw [hnone] at hstands
    rw [token_of_block hc hd, hblock]
    exact ⟨rfl, [], hstands, bare_nil⟩
  | case4 c d b' e hd h₁ h₂ hc =>
    have hs := (stands_of_next (stands_skipWhile Byte.isSpace h) hc).2.1
    obtain ⟨htoken, hstands⟩ := token_slash_again h hc hd (by simpa using h₁) (by simpa using h₂)
    refine ⟨htoken, _, hstands, bare_dropWhile fun _ => ?_⟩
    rw [(stands_of_next hs hd).1]
    exact ⟨by simpa using h₁, by simpa using h₂⟩
  | case5 c d e hd hc =>
    have hs := (stands_of_next (stands_skipWhile Byte.isSpace h) hc).2.1
    obtain ⟨htoken, hstands⟩ := token_slash_again h hc hd (by simp) (by simp)
    refine ⟨htoken, _, hstands, bare_dropWhile fun _ => ?_⟩
    rw [(stands_of_next hs hd).1]
    exact ⟨by simp, by simp⟩
  | case6 c d b hc hb =>
    obtain ⟨htoken, hstands, hbare⟩ := token_blank_again h hc (by simpa using hb)
    exact ⟨htoken, _, hstands, hbare⟩
  | case7 c d hc =>
    obtain ⟨htoken, hstands, hbare⟩ := token_blank_again h hc (by simp)
    exact ⟨htoken, _, hstands, hbare⟩

end Cursor
end ClassIndex
