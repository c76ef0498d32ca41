/-
# Words and signs

A word is as long as letters, digits and underscores go on; it is a reserved word or a name. A
sign is one byte, or two where the two are a sign of their own:

| first | alone | with a second |
| --- | --- | --- |
| `=` | assignment | `==` equality |
| `<` | less | `<=` less or equal, `<>` unequal |
| `>` | greater | `>=` greater or equal |
| `-`, `+` | minus, plus | `--` decrement, `++` increment |
| `!` | not | `!=` unequal |
-/

import ClassIndex.Cursor.Trivia
import ClassIndex.Token.Word

namespace ClassIndex
namespace Cursor

/-- A word after its first byte. -/
def word (first : UInt8) (c : Cursor) : Token.Kind × Cursor :=
  let d := (c.keep first).keepWhile Byte.inWord
  (Token.wordKind d.lexeme.toList, d)

theorem remaining_word (first : UInt8) (c : Cursor) :
    (c.word first).2.remaining ≤ c.remaining :=
  remaining_keepWhile Byte.inWord (c.keep first)

/-- The kind of a sign of one byte. -/
def single? (b : UInt8) : Option Token.Kind :=
  if b = Byte.of '*' then some .star
  else if b = Byte.of '%' then some .percent
  else if b = Byte.of ',' then some .comma
  else if b = Byte.of ';' then some .semicolon
  else if b = Byte.of ':' then some .colon
  else if b = Byte.of '[' then some .openSquare
  else if b = Byte.of ']' then some .closeSquare
  else if b = Byte.of '\x7b' then some .openCurly
  else if b = Byte.of '\x7d' then some .closeCurly
  else if b = Byte.of '(' then some .openParen
  else if b = Byte.of ')' then some .closeParen
  else if b = Byte.of '.' then some .dot
  else if b = Byte.of '|' then some .disjunction
  else if b = Byte.of '&' then some .conjunction
  else if b = Byte.of '=' then some .assign
  else if b = Byte.of '<' then some .less
  else if b = Byte.of '>' then some .greater
  else if b = Byte.of '-' then some .minus
  else if b = Byte.of '+' then some .plus
  else if b = Byte.of '!' then some .negate
  else none

/-- The second bytes that make another sign of a sign of one byte. -/
def doubles : Token.Kind → List (UInt8 × Token.Kind)
  | .assign => [(Byte.of '=', .equal)]
  | .less => [(Byte.of '=', .lessEqual), (Byte.of '>', .notEqual)]
  | .greater => [(Byte.of '=', .greaterEqual)]
  | .minus => [(Byte.of '-', .decrement)]
  | .plus => [(Byte.of '+', .increment)]
  | .negate => [(Byte.of '=', .notEqual)]
  | _ => []

/-- A sign after its first byte, the longer one if its second byte follows. Where no sign is
longer, nothing more is read. -/
def sign (single : Token.Kind) (c : Cursor) : Token.Kind × Cursor :=
  if (doubles single).isEmpty then (single, c)
  else match c.next with
    | (some b, d) =>
      match (doubles single).lookup b with
      | some kind => (kind, d.keep b)
      | none => (single, d.giveBack (some b))
    | (none, d) => (single, d)

theorem remaining_sign (single : Token.Kind) (c : Cursor) :
    (c.sign single).2.remaining ≤ c.remaining := by
  unfold sign
  split
  · exact Nat.le_refl _
  · split
    · rename_i b d h
      have := remaining_next_some h
      split
      · simp only [remaining_keep]; omega
      · simp only [remaining_giveBack_some]; omega
    · rename_i d h
      have := remaining_next_none h
      simp only; omega

/-- A sign from its first byte on; a byte that is no sign is passed over, with a warning if that
is wanted. -/
def punctuation (first : UInt8) (c : Cursor) : Option Token.Kind × Cursor :=
  match single? first with
  | some kind =>
    let (kind, d) := (c.keep first).sign kind
    (some kind, d)
  | none =>
    let d := (c.keep first).forget
    (none, if c.warns then d.report (.unrecognized first) else d)

theorem remaining_punctuation (first : UInt8) (c : Cursor) :
    (c.punctuation first).2.remaining ≤ c.remaining := by
  unfold punctuation
  split
  · exact remaining_sign _ (c.keep first)
  · dsimp only; split <;> simp

end Cursor
end ClassIndex
