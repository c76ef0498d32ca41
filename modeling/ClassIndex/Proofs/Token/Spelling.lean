/-
# How tokens are spelled

A token is spelled by bytes, and scanning them gives its kind and its lexeme. All tokens but
strings are their own lexemes; a string is spelled between double quotes with an escape for each
of its bytes:

| kind | spelling |
| --- | --- |
| reserved word, sign | as in the table of reserved words and in that of signs |
| name | a letter or underscore, then letters, digits, underscores; not reserved |
| hexadecimal number | `0x` or `0X`, hexadecimal digits |
| octal number | `0`, octal digits |
| whole number | `0`, or digits that open with another |
| float | a whole number, a point, digits or none, perhaps an exponent |
| string | `"`, for each byte `\0` and three octal digits, `"` |
-/

import ClassIndex.Byte
import ClassIndex.Proofs.Token.Word

namespace ClassIndex
namespace Token

/-- The signs with their kinds. -/
def signs : List (String × Kind) :=
  [("/", .slash), ("*", .star), ("%", .percent), (",", .comma), (";", .semicolon),
   (":", .colon), ("[", .openSquare), ("]", .closeSquare), ("\x7b", .openCurly),
   ("\x7d", .closeCurly), ("(", .openParen), (")", .closeParen), (".", .dot), ("=", .assign),
   ("<", .less), (">", .greater), ("-", .minus), ("+", .plus), ("!", .negate), ("==", .equal),
   ("<=", .lessEqual), (">=", .greaterEqual), ("--", .decrement), ("++", .increment),
   ("!=", .notEqual), ("<>", .notEqual), ("&", .conjunction), ("|", .disjunction)]

/-- The spelling of a whole number. -/
inductive Whole : List UInt8 → Prop where
  | zero : Whole [0x30]
  | digits {b : UInt8} {ds : List UInt8} (hb : Byte.isDigit b = true) (hne : b ≠ 0x30)
    (hds : ∀ d ∈ ds, Byte.isDigit d = true) : Whole (b :: ds)

theorem Whole.ne_nil {w : List UInt8} (h : Whole w) : w ≠ [] := by
  cases h <;> simp

theorem Whole.isDigit {b : UInt8} {w : List UInt8} (h : Whole (b :: w)) :
    Byte.isDigit b = true := by
  cases h with
  | zero => decide
  | digits hb => exact hb

/-- The spelling of an exponent, or of none. -/
inductive Exponent : List UInt8 → Prop where
  | none : Exponent []
  | some {x : UInt8} {sign ds : List UInt8} (hx : x = 0x65 ∨ x = 0x45)
    (hsign : sign = [] ∨ sign = [0x2b] ∨ sign = [0x2d]) (hne : ds ≠ [])
    (hds : ∀ d ∈ ds, Byte.isDigit d = true) : Exponent (x :: (sign ++ ds))

/-- The octal digits of a byte. -/
def octalDigits (b : UInt8) : List UInt8 := [0x30 + b / 64, 0x30 + b / 8 % 8, 0x30 + b % 8]

/-- The octal escape of a byte. -/
def octalEscape (b : UInt8) : List UInt8 := 0x5c :: 0x30 :: octalDigits b

/-- A kind of token is spelled by a text and has a lexeme. -/
inductive Spells : Kind → (text lexeme : List UInt8) → Prop where
  | word {w : String} {kind : Kind} (h : (w, kind) ∈ reserved) :
    Spells kind (Text.utf8 w) (Text.utf8 w)
  | sign {w : String} {kind : Kind} (h : (w, kind) ∈ signs) :
    Spells kind (Text.utf8 w) (Text.utf8 w)
  | name {b : UInt8} {w : List UInt8} (hb : Byte.beginsWord b = true)
    (hw : ∀ x ∈ w, Byte.inWord x = true) (h : ¬ IsReserved (b :: w)) :
    Spells .identifier (b :: w) (b :: w)
  | hex {x : UInt8} {ds : List UInt8} (hx : x = 0x78 ∨ x = 0x58) (hne : ds ≠ [])
    (hds : ∀ d ∈ ds, Byte.isHexDigit d = true) :
    Spells .hexNumber (0x30 :: x :: ds) (0x30 :: x :: ds)
  | octal {ds : List UInt8} (hne : ds ≠ []) (hds : ∀ d ∈ ds, Byte.isOctalDigit d = true) :
    Spells .octalNumber (0x30 :: ds) (0x30 :: ds)
  | whole {w : List UInt8} (hw : Whole w) : Spells .wholeNumber w w
  | float {w ds e : List UInt8} (hw : Whole w) (hds : ∀ d ∈ ds, Byte.isDigit d = true)
    (he : Exponent e) : Spells .floatNumber (w ++ 0x2e :: (ds ++ e)) (w ++ 0x2e :: (ds ++ e))
  | quoted (value : List UInt8) :
    Spells .quoted (0x22 :: (value.flatMap octalEscape ++ [0x22])) value

/-- A token with its spelling. -/
structure Spelled where
  kind : Kind
  text : List UInt8
  lexeme : List UInt8
  spells : Spells kind text lexeme

theorem reserved_begins : ∀ p ∈ reserved.toList,
    (Text.utf8 p.1).head?.any Byte.beginsWord = true ∧ (Text.utf8 p.1).all Byte.inWord = true := by
  decide +kernel

/-- A reserved word is a word. -/
theorem word_of_mem_reserved {w : String} {kind : Kind} (h : (w, kind) ∈ reserved) :
    ∃ b v, Text.utf8 w = b :: v ∧ Byte.beginsWord b = true ∧ ∀ x ∈ v, Byte.inWord x = true := by
  obtain ⟨hhead, hall⟩ := reserved_begins (w, kind) (Array.mem_toList_iff.2 h)
  rcases hw : Text.utf8 w with _ | ⟨b, v⟩
  · simp [hw] at hhead
  · simp only [hw, List.head?_cons, Option.any_some, List.all_cons, Bool.and_eq_true,
      List.all_eq_true] at hhead hall
    exact ⟨b, v, rfl, hhead, hall.2⟩

end Token
end ClassIndex
