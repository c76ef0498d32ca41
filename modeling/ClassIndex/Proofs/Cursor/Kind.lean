/-
# The kinds that readers yield

A reader that has begun a token yields some kind of token, if perhaps a malformed one: the end of
the input is told apart from every token (`token_ne_endOfInput`).
-/

import ClassIndex.Cursor.Token
import ClassIndex.Proofs.Cursor.Sign
import ClassIndex.Proofs.Token.Word

namespace ClassIndex
namespace Cursor

theorem hexNumber_ne (c : Cursor) : c.hexNumber.1 ≠ .endOfInput := by
  unfold hexNumber
  dsimp only
  split <;> simp

theorem octalNumber_ne (c : Cursor) : c.octalNumber.1 ≠ .endOfInput := by
  unfold octalNumber
  dsimp only
  split <;> simp

theorem exponentDigits_ne (c : Cursor) : c.exponentDigits.1 ≠ .endOfInput := by
  unfold exponentDigits
  dsimp only
  split <;> simp

theorem exponent_ne (c : Cursor) : c.exponent.1 ≠ .endOfInput := by
  unfold exponent
  repeat' split
  all_goals exact exponentDigits_ne _

theorem fraction_ne (c : Cursor) : c.fraction.1 ≠ .endOfInput := by
  unfold fraction
  repeat' split
  · exact exponent_ne _
  · simp
  · simp

theorem number_ne (first : UInt8) (c : Cursor) : (c.number first).1 ≠ .endOfInput := by
  unfold number
  split
  · unfold zeroNumber
    repeat' split
    · exact hexNumber_ne _
    · exact fraction_ne _
    · exact octalNumber_ne _
    · simp
    · simp
  · unfold wholeNumber
    repeat' split
    · exact fraction_ne _
    · simp
    · simp

theorem sign_ne {single : Token.Kind} (h : single ≠ .endOfInput) (c : Cursor) :
    (c.sign single).1 ≠ .endOfInput := by
  unfold sign
  repeat' split
  · exact h
  · rename_i hk
    exact doubles_ne hk
  · exact h
  · exact h

theorem punctuation_ne (first : UInt8) (c : Cursor) :
    (c.punctuation first).1 ≠ some .endOfInput := by
  unfold punctuation
  split
  · rename_i kind hk
    have hne : kind ≠ .endOfInput := fun h => single?_ne first (h ▸ hk)
    simpa using sign_ne hne (c.keep first)
  · simp

/-- What begins with a quote is a string or a fault. -/
theorem quoted_cases (quote : UInt8) (c : Cursor) :
    (c.quoted quote).1 = .quoted ∨ (c.quoted quote).1 = .error := by
  fun_induction quoted quote c with
  | case2 _ _ _ _ _ _ ih => exact ih
  | case4 _ _ _ _ _ _ _ _ _ ih => exact ih
  | case6 _ _ _ _ _ _ _ ih => exact ih
  | _ => simp

theorem quoted_ne (quote : UInt8) (c : Cursor) : (c.quoted quote).1 ≠ .endOfInput := by
  rcases quoted_cases quote c with h | h <;> simp [h]

theorem slash_ne (c : Cursor) : c.slash.1 ≠ some .endOfInput := by
  unfold slash
  repeat' split
  all_goals simp

theorem piece_ne (b : UInt8) (c : Cursor) : (c.piece b).1 ≠ some .endOfInput := by
  unfold piece
  split
  · exact fun h => quoted_ne b c (Option.some.inj h)
  · split
    · exact slash_ne c
    · split
      · exact fun h => number_ne b c (Option.some.inj h)
      · split
        · exact fun h => Token.wordKind_ne_endOfInput _ (Option.some.inj h)
        · exact punctuation_ne b c

/-- **No token is the end of the input.** -/
theorem token_ne_endOfInput (c : Cursor) : c.token.1 ≠ some .endOfInput := by
  fun_induction token c with
  | case1 c b d _ kind e hk =>
    have := piece_ne b d
    rwa [hk] at this
  | case2 _ _ _ _ _ _ ih => exact ih
  | case3 => simp

end Cursor
end ClassIndex
