/-
# Listed tokens

A listing shows a token with the source, line and column where it starts, and with its text if
the text says more than the kind.
-/

import ClassIndex.Json
import ClassIndex.Token.Kind

namespace ClassIndex
namespace Token

/-- A token with its text and its place. -/
structure Listed where
  kind : Kind
  text : String
  file : String
  line : Int
  column : Int
deriving DecidableEq, Repr

namespace Listed

/-- The line of a listing. -/
def shown (l : Listed) : String :=
  l.file ++ ": " ++ toString l.line ++ ": " ++ toString l.column ++ ": token: " ++ l.kind.name
    ++ (if l.kind.hasText then " '" ++ l.text ++ "'" else "")

/-- The token as data. -/
def json (l : Listed) : Json :=
  .obj [("kind", .str l.kind.tag), ("text", .str l.text), ("file", .str l.file),
    ("line", .num l.line), ("column", .num l.column)]

end Listed
end Token
end ClassIndex
