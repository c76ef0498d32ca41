/-
# Remarks of a reader

What a reader finds wrong does not always spoil the token. It reports these faults and reads on, and
so it may meet them anywhere in a string, in a comment or between tokens:

| remark | its code |
| --- | --- |
| a byte that begins no token | `E020` |
| a comma behind a string that no further segment follows | `E024` |
| a numeric escape without digits | `E025` |
| a comment without an end | `E026` |

A property of cursors that reading, giving back, keeping and these remarks leave as it is holds
after all readers of blanks, comments and parts of strings (`Remarking`).
-/

import ClassIndex.Cursor.Quoted
import ClassIndex.Proofs.Cursor.Account

namespace ClassIndex

/-- A fault that spoils no token. -/
inductive Fault.IsRemark : Fault → Prop
  | unrecognized (b : UInt8) : IsRemark (.unrecognized b)
  | badContinuation : IsRemark .badContinuation
  | emptyEscape (r : Radix) (x : Option UInt8) : IsRemark (.emptyEscape r (Cursor.shown x))
  | unterminatedComment : IsRemark .unterminatedComment

namespace Cursor

/-- The steps between the tokens of a source, and inside its strings, keep a property. -/
structure Remarking (P : Cursor → Prop) : Prop where
  next {c : Cursor} : P c → P c.next.2
  giveBack {c : Cursor} (x : Option UInt8) : P c → P (c.giveBack x)
  lexeme {c : Cursor} (l : Buffer) : P c → P { c with lexeme := l }
  report {c : Cursor} {f : Fault} (hf : f.IsRemark) : P c → P (c.report f)

namespace Remarking

variable {P : Cursor → Prop} {x : Option UInt8} {c d : Cursor}

theorem of_next (hP : Remarking P) (h : P c) (hc : c.next = (x, d)) : P d := by
  have hd := hP.next h
  rwa [hc] at hd

/-! ## Blanks and comments -/

theorem stepwise (hP : Remarking P) : Stepwise (Same P) where
  next := by
    rintro c _ ⟨rfl, h⟩
    exact ⟨rfl, rfl, hP.next h⟩
  giveBack := by
    rintro c _ ⟨rfl, h⟩
    exact ⟨rfl, hP.giveBack _ (hP.next h)⟩

theorem skipSpace (hP : Remarking P) (h : P c) : P c.skipSpace := (hP.stepwise.skipSpace ⟨rfl, h⟩).2

theorem skipLine (hP : Remarking P) (h : P c) : P c.skipLine := (hP.stepwise.skipLine ⟨rfl, h⟩).2

theorem skipBlock (hP : Remarking P) (star : Bool) (h : P c) : P (c.skipBlock star).2 := by
  fun_induction Cursor.skipBlock star c with
  | case1 star c d hc ih => exact ih (hP.of_next h hc)
  | case2 star c b d hc => exact hP.of_next h hc
  | case3 star c b d hc _ _ ih => exact ih (hP.of_next h hc)
  | case4 star c d hc => exact hP.report .unterminatedComment (hP.of_next h hc)

theorem skipTrivia (hP : Remarking P) (h : P c) : P c.skipTrivia := by
  fun_induction Cursor.skipTrivia c with
  | case1 c d e hc hd ih =>
    exact ih (hP.skipLine (hP.of_next (hP.of_next (hP.skipSpace h) hc) hd))
  | case2 c d e f hblock hc hd _ ih =>
    have hf := hP.skipBlock false (hP.of_next (hP.of_next (hP.skipSpace h) hc) hd)
    rw [hblock] at hf
    exact ih hf
  | case3 c d e f hblock hc hd =>
    have hf := hP.skipBlock false (hP.of_next (hP.of_next (hP.skipSpace h) hc) hd)
    rwa [hblock] at hf
  | case4 c d b' e hd _ _ hc =>
    exact hP.giveBack _ (hP.giveBack _ (hP.of_next (hP.of_next (hP.skipSpace h) hc) hd))
  | case5 c d e hd hc => exact hP.giveBack _ (hP.of_next (hP.of_next (hP.skipSpace h) hc) hd)
  | case6 c d b hc => exact hP.giveBack _ (hP.of_next (hP.skipSpace h) hc)
  | case7 c d hc => exact hP.of_next (hP.skipSpace h) hc

theorem slash (hP : Remarking P) (h : P c) : P c.slash.2 := by
  unfold Cursor.slash
  split
  · rename_i b d hc
    have hd := hP.of_next h hc
    split
    · exact hP.skipLine hd
    · split
      · exact hP.skipBlock false hd
      · exact hP.lexeme _ (hP.giveBack _ hd)
  · rename_i d hc
    exact hP.lexeme _ (hP.of_next h hc)

/-! ## Parts of strings -/

theorem digits (hP : Remarking P) (r : Radix) (n : Nat) (h : P c) : P (Cursor.digits r n c).2 := by
  fun_induction Cursor.digits r n c with
  | case1 => exact h
  | case2 n c b d hc _ ds e he ih =>
    rw [he] at ih
    exact ih (hP.of_next h hc)
  | case3 n c b d hc => exact hP.giveBack (some b) (hP.of_next h hc)
  | case4 n c d hc => exact hP.of_next h hc

theorem leadingSign (hP : Remarking P) (h : P c) : P c.leadingSign.2 := by
  unfold Cursor.leadingSign
  split
  · rename_i b d hc
    have hd := hP.of_next h hc
    split
    · exact hd
    · split
      · exact hd
      · exact hP.giveBack (some b) hd
  · rename_i d hc
    exact hP.of_next h hc

theorem numericEscape (hP : Remarking P) (r : Radix) (h : P c) : P (c.numericEscape r) := by
  have hsign : P (if r = .decimal then c.leadingSign else (false, c)).2 := by
    split
    · exact hP.leadingSign h
    · exact h
  unfold Cursor.numericEscape
  rcases hd : (if r = .decimal then c.leadingSign else (false, c)) with ⟨negative, d⟩
  rw [hd] at hsign
  have hdigits := hP.digits r r.limit hsign
  rcases he : Cursor.digits r r.limit d with ⟨_ | ⟨b, bs⟩, e⟩
  all_goals
    rw [he] at hdigits
    simp only [he]
  · exact hP.report (.emptyEscape r _) hdigits
  · exact hP.lexeme _ hdigits

theorem escape (hP : Remarking P) (h : P c) : P c.escape.2 := by
  unfold Cursor.escape
  split
  · rename_i b d hc
    have hd := hP.of_next h hc
    dsimp only
    repeat' split
    · exact hP.numericEscape .hex hd
    · exact hP.numericEscape .decimal hd
    · exact hP.numericEscape .octal hd
    · exact hP.lexeme _ hd
  · rename_i d hc
    exact hP.of_next h hc

theorem goesOn (hP : Remarking P) (quote : UInt8) (h : P c) : P (c.goesOn quote).2 := by
  unfold Cursor.goesOn
  split
  · rename_i b d hc
    have hd := hP.of_next (hP.skipTrivia h) hc
    split
    · split
      · rename_i b' e he
        have he' := hP.of_next (hP.skipTrivia hd) he
        split
        · exact he'
        · exact hP.report .badContinuation (hP.giveBack _ he')
      · rename_i e he
        exact hP.report .badContinuation (hP.of_next (hP.skipTrivia hd) he)
    · exact hP.giveBack (some b) hd
  · rename_i d hc
    exact hP.of_next (hP.skipTrivia h) hc

end Remarking
end Cursor
end ClassIndex
