/-
# Classes of bytes

The scanner tells bytes apart by these classes; bytes beyond ASCII are in none of them.
-/

namespace ClassIndex
namespace Byte

/-- A blank: space, tab, line feed, carriage return, vertical tab, form feed. -/
def isSpace (b : UInt8) : Bool :=
  b == 0x20 || b == 0x09 || b == 0x0a || b == 0x0d || b == 0x0b || b == 0x0c

/-- A decimal digit. -/
def isDigit (b : UInt8) : Bool := 0x30 ≤ b && b ≤ 0x39

/-- A hexadecimal digit of either case. -/
def isHexDigit (b : UInt8) : Bool :=
  isDigit b || (0x41 ≤ b && b ≤ 0x46) || (0x61 ≤ b && b ≤ 0x66)

/-- An octal digit. -/
def isOctalDigit (b : UInt8) : Bool := 0x30 ≤ b && b ≤ 0x37

/-- A letter of either case. -/
def isLetter (b : UInt8) : Bool := (0x41 ≤ b && b ≤ 0x5a) || (0x61 ≤ b && b ≤ 0x7a)

/-- Begins a word. -/
def beginsWord (b : UInt8) : Bool := isLetter b || b == 0x5f

/-- Goes on in a word. -/
def inWord (b : UInt8) : Bool := isLetter b || isDigit b || b == 0x5f

/-- The byte of an ASCII character. -/
def of (c : Char) : UInt8 := c.toNat.toUInt8

end Byte
end ClassIndex
