/-
# Numbers

A number opens with a digit, which its first two bytes sort into four forms:

| form | example |
| --- | --- |
| hexadecimal: `0x` or `0X`, then hexadecimal digits | `0x1F` |
| octal: `0`, then octal digits | `017` |
| whole: `0` alone, or digits that open with another | `42` |
| float: a whole number, a point, digits, and perhaps an exponent | `4.2e-1` |

A hexadecimal number or an exponent without digits and an octal number with an 8 or a 9 are
malformed; their bytes are still taken.
-/

import ClassIndex.Cursor.Trivia

namespace ClassIndex
namespace Cursor

/-- The digits of a hexadecimal number, after its opening. -/
def hexNumber (c : Cursor) : Token.Kind × Cursor :=
  let d := c.keepWhile Byte.isHexDigit
  if d.lexeme.length = c.lexeme.length then (.error, d.report .malformedHex) else (.hexNumber, d)

theorem remaining_hexNumber (c : Cursor) : c.hexNumber.2.remaining ≤ c.remaining := by
  have := remaining_keepWhile Byte.isHexDigit c
  unfold hexNumber; dsimp only; split <;> simpa

/-- The digits of an octal number, after its zero. -/
def octalNumber (c : Cursor) : Token.Kind × Cursor :=
  let d := c.keepWhile Byte.isDigit
  if d.lexeme.toList.any fun b => b == 0x38 || b == 0x39 then
    (.error, d.report (.malformedOctal d.lexeme.text))
  else (.octalNumber, d)

theorem remaining_octalNumber (c : Cursor) : c.octalNumber.2.remaining ≤ c.remaining := by
  have := remaining_keepWhile Byte.isDigit c
  unfold octalNumber; dsimp only; split <;> simpa

/-- The digits of an exponent, which there must be. -/
def exponentDigits (c : Cursor) : Token.Kind × Cursor :=
  let d := c.keepWhile Byte.isDigit
  if d.lexeme.length = c.lexeme.length then
    (.error, d.report (.malformedFloat d.lexeme.text))
  else (.floatNumber, d)

theorem remaining_exponentDigits (c : Cursor) : c.exponentDigits.2.remaining ≤ c.remaining := by
  have := remaining_keepWhile Byte.isDigit c
  unfold exponentDigits; dsimp only; split <;> simpa

/-- An exponent after its letter: a sign if there is one, and digits. -/
def exponent (c : Cursor) : Token.Kind × Cursor :=
  match c.next with
  | (some b, d) =>
    if b = 0x2b || b = 0x2d then (d.keep b).exponentDigits else (d.giveBack (some b)).exponentDigits
  | (none, d) => d.exponentDigits

theorem remaining_exponent (c : Cursor) : c.exponent.2.remaining ≤ c.remaining := by
  unfold exponent
  split
  · rename_i b d h
    have := remaining_next_some h
    split
    · have := remaining_exponentDigits (d.keep b); simp only [remaining_keep] at this; omega
    · have := remaining_exponentDigits (d.giveBack (some b))
      simp only [remaining_giveBack_some] at this; omega
  · rename_i d h
    have := remaining_next_none h
    have := remaining_exponentDigits d; omega

/-- A float after its point: digits, and an exponent if its letter follows. -/
def fraction (c : Cursor) : Token.Kind × Cursor :=
  match (c.keepWhile Byte.isDigit).next with
  | (some b, d) =>
    if b = 0x65 || b = 0x45 then (d.keep b).exponent else (.floatNumber, d.giveBack (some b))
  | (none, d) => (.floatNumber, d)

theorem remaining_fraction (c : Cursor) : c.fraction.2.remaining ≤ c.remaining := by
  have := remaining_keepWhile Byte.isDigit c
  unfold fraction
  split
  · rename_i b d h
    have := remaining_next_some h
    split
    · have := remaining_exponent (d.keep b); simp only [remaining_keep] at this; omega
    · simp only [remaining_giveBack_some]; omega
  · rename_i d h
    have := remaining_next_none h
    simp only; omega

/-- A whole number after its first digit, or the float that it turns out to be. -/
def wholeNumber (c : Cursor) : Token.Kind × Cursor :=
  match (c.keepWhile Byte.isDigit).next with
  | (some b, d) =>
    if b = 0x2e then (d.keep b).fraction else (.wholeNumber, d.giveBack (some b))
  | (none, d) => (.wholeNumber, d)

theorem remaining_wholeNumber (c : Cursor) : c.wholeNumber.2.remaining ≤ c.remaining := by
  have := remaining_keepWhile Byte.isDigit c
  unfold wholeNumber
  split
  · rename_i b d h
    have := remaining_next_some h
    split
    · have := remaining_fraction (d.keep b); simp only [remaining_keep] at this; omega
    · simp only [remaining_giveBack_some]; omega
  · rename_i d h
    have := remaining_next_none h
    simp only; omega

/-- A number after its opening zero. -/
def zeroNumber (c : Cursor) : Token.Kind × Cursor :=
  match c.next with
  | (some b, d) =>
    if b = 0x78 || b = 0x58 then (d.keep b).hexNumber
    else if b = 0x2e then (d.keep b).fraction
    else if Byte.isDigit b then (d.giveBack (some b)).octalNumber
    else (.wholeNumber, d.giveBack (some b))
  | (none, d) => (.wholeNumber, d)

theorem remaining_zeroNumber (c : Cursor) : c.zeroNumber.2.remaining ≤ c.remaining := by
  unfold zeroNumber
  split
  · rename_i b d h
    have := remaining_next_some h
    split
    · have := remaining_hexNumber (d.keep b); simp only [remaining_keep] at this; omega
    · split
      · have := remaining_fraction (d.keep b); simp only [remaining_keep] at this; omega
      · split
        · have := remaining_octalNumber (d.giveBack (some b))
          simp only [remaining_giveBack_some] at this; omega
        · simp only [remaining_giveBack_some]; omega
  · rename_i d h
    have := remaining_next_none h
    simp only; omega

/-- A number after its first digit. -/
def number (first : UInt8) (c : Cursor) : Token.Kind × Cursor :=
  if first = 0x30 then (c.keep first).zeroNumber else (c.keep first).wholeNumber

theorem remaining_number (first : UInt8) (c : Cursor) :
    (c.number first).2.remaining ≤ c.remaining := by
  unfold number
  split
  · exact remaining_zeroNumber (c.keep first)
  · exact remaining_wholeNumber (c.keep first)

end Cursor
end ClassIndex
