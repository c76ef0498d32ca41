/-
# Quoted text

Descriptions of the program's own state show a text between double quotes: quotes, backslashes and
the usual control characters after a backslash, characters without a shape of their own by code
point, all else as it is.
-/

import ClassIndex.Text.Escape
import ClassIndex.Text.Shapeless

namespace ClassIndex
namespace Text

/-- One character between double quotes. -/
def quotedChar (c : Char) : List Char :=
  if c = '\x00' then ['\\', '0']
  else if c = '\t' then ['\\', 't']
  else if c = '\r' then ['\\', 'r']
  else if c = '\n' then ['\\', 'n']
  else if c = '"' || c = '\\' then ['\\', c]
  else if isShapeless c then codePoint c
  else [c]

/-- A text between double quotes. -/
def quoted (s : String) : String :=
  String.ofList ('"' :: (s.toList.flatMap quotedChar ++ ['"']))

end Text
end ClassIndex
