/-
# Blanks and comments

Between tokens stand blanks and comments: a comment after `//` takes the rest of its line with the
line feed, a comment after the opening sign of a block ends with the first star that a slash
follows. A comment ends at the latest with its source.
-/

import ClassIndex.Cursor.Basic

namespace ClassIndex
namespace Cursor

/-- Passes over blanks. -/
def skipSpace (c : Cursor) : Cursor := c.skipWhile Byte.isSpace

theorem remaining_skipSpace (c : Cursor) : c.skipSpace.remaining ≤ c.remaining :=
  remaining_skipWhile Byte.isSpace c

/-- Passes over the rest of a line and its line feed. -/
def skipLine (c : Cursor) : Cursor :=
  match _h : c.next with
  | (some b, d) => if b = 0x0a then d else skipLine d
  | (none, d) => d
termination_by c.remaining
decreasing_by have := remaining_next_some _h; omega

theorem skipLine_eq (c : Cursor) :
    c.skipLine = match c.next with
      | (some b, d) => if b = 0x0a then d else skipLine d
      | (none, d) => d := by
  rw [skipLine]
  split <;> rename_i h <;> simp only [h]

theorem remaining_skipLine (c : Cursor) : c.skipLine.remaining ≤ c.remaining := by
  fun_induction skipLine c with
  | case1 c d h => have := remaining_next_some h; omega
  | case2 c b d h hb ih => have := remaining_next_some h; omega
  | case3 c d h => have := remaining_next_none h; omega

/-- Passes over a comment to the end of its block, `star` saying that the byte before was a star.
The answer tells whether the block ended before the source; if not, that is a fault. -/
def skipBlock (star : Bool) (c : Cursor) : Bool × Cursor :=
  match _h : c.next with
  | (some b, d) =>
    if b = 0x2a then skipBlock true d
    else if b = 0x2f && star then (true, d)
    else skipBlock false d
  | (none, d) => (false, d.report .unterminatedComment)
termination_by c.remaining
decreasing_by
  all_goals
    have := remaining_next_some _h
    omega

theorem skipBlock_eq (star : Bool) (c : Cursor) :
    c.skipBlock star = match c.next with
      | (some b, d) =>
        if b = 0x2a then skipBlock true d
        else if b = 0x2f && star then (true, d)
        else skipBlock false d
      | (none, d) => (false, d.report .unterminatedComment) := by
  rw [skipBlock]
  split <;> rename_i h <;> simp only [h]

theorem remaining_skipBlock (star : Bool) (c : Cursor) :
    (c.skipBlock star).2.remaining ≤ c.remaining := by
  fun_induction skipBlock star c with
  | case1 star c d h ih => have := remaining_next_some h; omega
  | case2 star c b d h hb hs => have := remaining_next_some h; simp only; omega
  | case3 star c b d h hb hs ih => have := remaining_next_some h; omega
  | case4 star c d h => have := remaining_next_none h; simp only [remaining_report]; omega

/-- Passes over blanks and comments. A slash that opens no comment is left, and so is what follows
a comment that does not end. -/
def skipTrivia (c : Cursor) : Cursor :=
  match _h : c.skipSpace.next with
  | (some b, d) =>
    if b = 0x2f then
      match _k : d.next with
      | (some b', e) =>
        if b' = 0x2f then skipTrivia e.skipLine
        else if b' = 0x2a then
          match _l : e.skipBlock false with
          | (true, f) => skipTrivia f
          | (false, f) => f
        else (e.giveBack (some b')).giveBack (some b)
      | (none, e) => e.giveBack (some b)
    else d.giveBack (some b)
  | (none, d) => d
termination_by c.remaining
decreasing_by
  · have := remaining_next_some _h; have := remaining_next_some _k
    have := remaining_skipSpace c; have := remaining_skipLine e; omega
  · have := remaining_next_some _h; have := remaining_next_some _k
    have := remaining_skipSpace c
    have l := remaining_skipBlock false e
    rw [_l] at l; simp only at l; omega

theorem skipTrivia_eq (c : Cursor) :
    c.skipTrivia = match c.skipSpace.next with
      | (some b, d) =>
        if b = 0x2f then
          match d.next with
          | (some b', e) =>
            if b' = 0x2f then skipTrivia e.skipLine
            else if b' = 0x2a then
              match e.skipBlock false with
              | (true, f) => skipTrivia f
              | (false, f) => f
            else (e.giveBack (some b')).giveBack (some b)
          | (none, e) => e.giveBack (some b)
        else d.giveBack (some b)
      | (none, d) => d := by
  rw [skipTrivia]
  split <;> rename_i h <;> simp only [h]
  congr
  split <;> rename_i k <;> simp only [k]
  congr
  split <;> rename_i l <;> simp only [l]

theorem remaining_skipTrivia (c : Cursor) : c.skipTrivia.remaining ≤ c.remaining := by
  fun_induction skipTrivia c with
  | case1 c d e h k ih =>
    have := remaining_next_some h; have := remaining_next_some k
    have := remaining_skipSpace c; have := remaining_skipLine e; omega
  | case2 c d e f l h k _ ih =>
    have := remaining_next_some h; have := remaining_next_some k
    have := remaining_skipSpace c
    have l' := remaining_skipBlock false e
    rw [l] at l'; simp only at l'; omega
  | case3 c d e f l h k =>
    have := remaining_next_some h; have := remaining_next_some k
    have := remaining_skipSpace c
    have l' := remaining_skipBlock false e
    rw [l] at l'; simp only at l'; omega
  | case4 c d b' e k _ _ h =>
    have := remaining_next_some h; have := remaining_next_some k
    have := remaining_skipSpace c; simp only [remaining_giveBack_some]; omega
  | case5 c d e k h =>
    have := remaining_next_some h; have := remaining_next_none k
    have := remaining_skipSpace c; simp only [remaining_giveBack_some]; omega
  | case6 c b d h =>
    have := remaining_next_some h
    have := remaining_skipSpace c; simp only [remaining_giveBack_some]; omega
  | case7 c d h =>
    have := remaining_next_none h
    have := remaining_skipSpace c; omega

/-- What stands after a slash: nothing for a comment, which is passed over, else the slash. -/
def slash (c : Cursor) : Option Token.Kind × Cursor :=
  match c.next with
  | (some b, d) =>
    if b = 0x2f then (none, d.skipLine)
    else if b = 0x2a then (none, (d.skipBlock false).2)
    else (some .slash, (d.giveBack (some b)).keep 0x2f)
  | (none, d) => (some .slash, d.keep 0x2f)

theorem remaining_slash (c : Cursor) : c.slash.2.remaining ≤ c.remaining := by
  unfold slash
  split
  · rename_i b d h
    have := remaining_next_some h
    split
    · have := remaining_skipLine d; simp only; omega
    · split
      · have := remaining_skipBlock false d; simp only; omega
      · simp only [remaining_keep, remaining_giveBack_some]; omega
  · rename_i d h
    have := remaining_next_none h
    simp only [remaining_keep]; omega

end Cursor
end ClassIndex
