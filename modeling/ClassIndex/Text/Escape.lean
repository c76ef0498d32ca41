/-
# Escaped characters

Messages show a single source byte, or an import name, with everything outside printable ASCII
escaped: the three blanks with a letter, the quotes and the backslash after a backslash, and all
else by its code point in hexadecimal between braces.
-/

namespace ClassIndex
namespace Text

/-- The lower-case hexadecimal digit of a number below sixteen. -/
def hexDigit (n : Nat) : Char :=
  if n < 10 then Char.ofNat (48 + n) else Char.ofNat (87 + n)

/-- The upper-case hexadecimal digit of a number below sixteen. -/
def upperHexDigit (n : Nat) : Char :=
  if n < 10 then Char.ofNat (48 + n) else Char.ofNat (55 + n)

/-- The hexadecimal digits of a number, without leading zeros. -/
def hexDigits (n : Nat) : List Char :=
  if n < 16 then [hexDigit n] else hexDigits (n / 16) ++ [hexDigit (n % 16)]
termination_by n

/-- Two lower-case hexadecimal digits of a byte. -/
def hexPair (b : UInt8) : List Char := [hexDigit (b.toNat / 16), hexDigit (b.toNat % 16)]

/-- Two upper-case hexadecimal digits of a byte. -/
def upperHexPair (b : UInt8) : List Char :=
  [upperHexDigit (b.toNat / 16), upperHexDigit (b.toNat % 16)]

/-- A code point in hexadecimal between braces. -/
def codePoint (c : Char) : List Char :=
  ['\\', 'u', '\x7b'] ++ hexDigits c.toNat ++ ['\x7d']

/-- One character with everything outside printable ASCII escaped. -/
def escapeChar (c : Char) : List Char :=
  if c = '\t' then ['\\', 't']
  else if c = '\r' then ['\\', 'r']
  else if c = '\n' then ['\\', 'n']
  else if c = '\'' || c = '"' || c = '\\' then ['\\', c]
  else if 0x20 ≤ c.toNat && c.toNat ≤ 0x7e then [c]
  else codePoint c

/-- A text with everything outside printable ASCII escaped. -/
def escape (s : String) : String := String.ofList (s.toList.flatMap escapeChar)

/-- A byte as the character of that number, escaped. -/
def escapeByte (b : UInt8) : String := String.ofList (escapeChar (Char.ofNat b.toNat))

end Text
end ClassIndex
