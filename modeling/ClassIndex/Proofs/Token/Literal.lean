/-
# Literals between double quotes

The body of a literal is a row of items, and what it denotes is what they denote, one after the
other:

| item | is written | denotes |
| --- | --- | --- |
| raw | a byte but `"`, backslash, line feed | that byte |
| control | backslash, one of `n`, `r`, `t`, `b`, `f`, `v` | the control byte of that letter |
| hex | backslash, `x` or `X`, 1 to 8 digits | the shortest bytes of the number |
| decimal | backslash, `d` or `D`, perhaps a sign, 1 to 10 digits | those of the number modulo 2³² |
| octal | backslash, `0`, 1 to 3 digits | the byte of the number modulo 256 |
| plain | backslash, any other byte | that byte |

An item that could hold a further digit ends where none follows (`Spaced`).
-/

import ClassIndex.Proofs.Token.Digits
import ClassIndex.Proofs.Token.Spelling

namespace ClassIndex
namespace Token

/-- The sign of a decimal number. -/
inductive Sign where
  | none
  | plus
  | minus
deriving DecidableEq

namespace Sign

/-- The bytes of a sign. -/
def bytes : Sign → List UInt8
  | .none => []
  | .plus => [Byte.of '+']
  | .minus => [Byte.of '-']

/-- The number with its sign. -/
def apply (n : Nat) : Sign → Int
  | .none => n
  | .plus => n
  | .minus => -n

end Sign

/-- The letters of control bytes, with these bytes. -/
def controls : List (UInt8 × UInt8) :=
  [(Byte.of 'n', 0x0a), (Byte.of 'r', 0x0d), (Byte.of 't', 0x09), (Byte.of 'b', 0x08),
   (Byte.of 'f', 0x0c), (Byte.of 'v', 0x0b)]

/-- The bytes that open the digits of a number. -/
def numeralMarks : List UInt8 :=
  [Byte.of 'x', Byte.of 'X', Byte.of 'd', Byte.of 'D', Byte.of '0']

/-- An item of a literal's body. -/
inductive Item where
  | raw (b : UInt8) (h : b ∉ [0x22, 0x5c, 0x0a])
  | control (letter b : UInt8) (h : (letter, b) ∈ controls)
  | hex (capital : Bool) (digits : List (Digit 16)) (hsome : digits ≠ [])
    (hfew : digits.length ≤ 8)
  | decimal (capital : Bool) (sign : Sign) (digits : List (Digit 10)) (hsome : digits ≠ [])
    (hfew : digits.length ≤ 10)
  | octal (digits : List (Digit 8)) (hsome : digits ≠ []) (hfew : digits.length ≤ 3)
  | plain (b : UInt8) (hcontrol : b ∉ controls.map Prod.fst) (hmark : b ∉ numeralMarks)

namespace Item

/-- How an item is written. -/
def bytes : Item → List UInt8
  | .raw b _ => [b]
  | .control letter _ _ => [0x5c, letter]
  | .hex capital digits _ _ =>
    0x5c :: Byte.of (if capital then 'X' else 'x') :: digits.map Digit.byte
  | .decimal capital sign digits _ _ =>
    0x5c :: Byte.of (if capital then 'D' else 'd') :: (sign.bytes ++ digits.map Digit.byte)
  | .octal digits _ _ => 0x5c :: Byte.of '0' :: digits.map Digit.byte
  | .plain b _ _ => [0x5c, b]

/-- What an item denotes. -/
def denoted : Item → List UInt8
  | .raw b _ => [b]
  | .control _ b _ => [b]
  | .hex _ digits _ _ => shortest (Digit.number digits)
  | .decimal _ sign digits _ _ => shortest (sign.apply (Digit.number digits) % 2 ^ 32).toNat
  | .octal digits _ _ => [UInt8.ofNat (Digit.number digits % 256)]
  | .plain b _ _ => [b]

/-- Before this byte an item ends: it holds as many digits as it may, or the byte is no digit. -/
def EndsBefore (next : Option UInt8) : Item → Prop
  | .hex _ digits _ _ => digits.length < 8 → ∀ d : Digit 16, next ≠ some d.byte
  | .decimal _ _ digits _ _ => digits.length < 10 → ∀ d : Digit 10, next ≠ some d.byte
  | .octal digits _ _ => digits.length < 3 → ∀ d : Digit 8, next ≠ some d.byte
  | _ => True

/-- The octal item of a byte, with all three digits. -/
def ofByte (b : UInt8) : Item :=
  .octal [⟨⟨b.toNat / 64, by have := b.toNat_lt; omega⟩, false⟩,
    ⟨⟨b.toNat / 8 % 8, by omega⟩, false⟩, ⟨⟨b.toNat % 8, by omega⟩, false⟩]
    (by simp) (by simp)

/-- The octal item of a byte is its escape, and denotes it. -/
theorem ofByte_spec (b : UInt8) : (ofByte b).bytes = octalEscape b ∧ (ofByte b).denoted = [b] := by
  revert b
  exact Byte.forall_of_fin (by decide +kernel)

end Item

/-- The body of a literal. -/
def body (items : List Item) : List UInt8 := items.flatMap Item.bytes

/-- Each item ends before the byte that follows it, which is the closing quote for the last. -/
def Spaced : List Item → Prop
  | [] => True
  | i :: items => i.EndsBefore (body items ++ [0x22]).head? ∧ Spaced items

/-- A literal between double quotes. -/
structure Literal where
  items : List Item
  spaced : Spaced items

namespace Literal

/-- How a literal is written. -/
def bytes (l : Literal) : List UInt8 := 0x22 :: (body l.items ++ [0x22])

/-- What a literal denotes. -/
def value (l : Literal) : List UInt8 := l.items.flatMap Item.denoted

end Literal

theorem body_map_ofByte (value : List UInt8) :
    body (value.map Item.ofByte) = value.flatMap octalEscape := by
  simp [body, List.flatMap_map, Item.ofByte_spec]

theorem flatMap_denoted_map_ofByte (value : List UInt8) :
    (value.map Item.ofByte).flatMap Item.denoted = value := by
  simp [List.flatMap_map, Item.ofByte_spec]

/-- Items with all their digits may stand anywhere. -/
theorem spaced_map_ofByte (value : List UInt8) : Spaced (value.map Item.ofByte) := by
  induction value with
  | nil => trivial
  | cons b value ih => exact ⟨fun h => absurd h (Nat.lt_irrefl 3), ih⟩

end Token
end ClassIndex
