/-
# One token of a source

The next token of a source begins at its first byte that is neither blank nor comment nor
unknown. A source without such a byte has ended.
-/

import ClassIndex.Cursor.Number
import ClassIndex.Cursor.Quoted
import ClassIndex.Cursor.Sign

namespace ClassIndex
namespace Cursor

/-- What begins with a byte: a token, or nothing if it is a comment or unknown. -/
def piece (b : UInt8) (c : Cursor) : Option Token.Kind × Cursor :=
  if b = 0x22 || b = 0x27 then
    let (kind, d) := c.quoted b
    (some kind, d)
  else if b = 0x2f then c.slash
  else if Byte.isDigit b then
    let (kind, d) := c.number b
    (some kind, d)
  else if Byte.beginsWord b then
    let (kind, d) := c.word b
    (some kind, d)
  else c.punctuation b

theorem remaining_piece (b : UInt8) (c : Cursor) : (c.piece b).2.remaining ≤ c.remaining := by
  unfold piece
  split
  · exact remaining_quoted b c
  · split
    · exact remaining_slash c
    · split
      · exact remaining_number b c
      · split
        · exact remaining_word b c
        · exact remaining_punctuation b c

/-- Passes over blanks and begins a token there. -/
def begin (c : Cursor) : Cursor :=
  let d := c.skipSpace
  { d.forget with start := d.position }

theorem remaining_begin (c : Cursor) : c.begin.remaining ≤ c.remaining := remaining_skipSpace c

/-- The next token; none if the source ends before one begins. -/
def token (c : Cursor) : Option Token.Kind × Cursor :=
  match _h : c.begin.next with
  | (some b, d) =>
    match _k : d.piece b with
    | (some kind, e) => (some kind, e)
    | (none, e) => token e
  | (none, d) => (none, d)
termination_by c.remaining
decreasing_by
  have := remaining_begin c; have := remaining_next_some _h
  have k := remaining_piece b d
  rw [_k] at k; simp only at k; omega

theorem token_eq (c : Cursor) :
    c.token = match c.begin.next with
      | (some b, d) =>
        match d.piece b with
        | (some kind, e) => (some kind, e)
        | (none, e) => token e
      | (none, d) => (none, d) := by
  rw [token]
  split <;> rename_i h <;> simp only [h]
  split <;> rename_i k <;> simp only [k]

/-- **A token takes at least one byte**, and the end of a source takes none back. -/
theorem remaining_token (c : Cursor) :
    c.token.2.remaining + (if c.token.1.isSome then 1 else 0) ≤ c.remaining := by
  fun_induction token c with
  | case1 c b d h kind e k =>
    have := remaining_begin c; have := remaining_next_some h
    have k' := remaining_piece b d
    rw [k] at k'; simp at k' ⊢; omega
  | case2 c b d h e k ih =>
    have := remaining_begin c; have := remaining_next_some h
    have k' := remaining_piece b d
    rw [k] at k'; simp only at k'; omega
  | case3 c d h =>
    have := remaining_begin c; have := remaining_next_none h
    simp; omega

end Cursor
end ClassIndex
