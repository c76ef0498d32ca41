/-
# Faults in a source

Everything the program finds wrong in the text of a source, with its code, level and wording.

| code | fault |
| --- | --- |
| `E020` | a byte that begins no token (a warning) |
| `E021`, `E023`, `E024` | a string that does not end, is broken by a line end, or is continued wrongly |
| `E022` | a number that is malformed |
| `E025` | a numeric escape without digits (a warning) |
| `E026` | a comment that does not end |
| `E029` | a source that cannot be read to its end |
| `E030` | a token that does not belong where it stands |
-/

import ClassIndex.Diagnostic.Event
import ClassIndex.Text.Escape
import ClassIndex.Token.Kind

namespace ClassIndex

/-- The radix of a numeric escape. -/
inductive Radix where
  | octal
  | decimal
  | hex
deriving DecidableEq, Repr

/-- The word for a radix in messages. -/
def Radix.text : Radix → String
  | .octal => "octal"
  | .decimal => "decimal"
  | .hex => "hex"

/-- Something wrong in the text of a source. -/
inductive Fault where
  | unrecognized (b : UInt8)
  | unterminatedString
  | malformedHex
  | malformedOctal (lexeme : String)
  | malformedFloat (lexeme : String)
  | lineBreakInString
  | badContinuation
  | emptyEscape (radix : Radix) (shown : String)
  | unterminatedComment
  | readFailure (message : String)
  | unexpected (wanted got : Token.Kind)
  | noneOf (wanted : List Token.Kind) (got : Token.Kind)
  | notTopLevel (got : Token.Kind)
deriving DecidableEq, Repr

namespace Fault

/-- The level of a fault: an unknown byte and an empty escape are passed over with a warning. -/
def level : Fault → Diagnostic.Level
  | .unrecognized _ | .emptyEscape .. => .warning
  | _ => .error

/-- The code of a fault. -/
def code : Fault → String
  | .unrecognized _ => "E020"
  | .unterminatedString => "E021"
  | .malformedHex | .malformedOctal _ | .malformedFloat _ => "E022"
  | .lineBreakInString => "E023"
  | .badContinuation => "E024"
  | .emptyEscape .. => "E025"
  | .unterminatedComment => "E026"
  | .readFailure _ => "E029"
  | .unexpected .. | .noneOf .. | .notTopLevel _ => "E030"

/-- The wording of a fault. -/
def message : Fault → String
  | .unrecognized b =>
    "unrecognized character in input: '" ++ Text.escapeByte b ++ "' (0x"
      ++ String.ofList (Text.upperHexPair b) ++ "). Ignored."
  | .unterminatedString => "unterminated string"
  | .malformedHex => "malformed hex number"
  | .malformedOctal lexeme => "malformed octal number: " ++ lexeme
  | .malformedFloat lexeme => "malformed float number: " ++ lexeme
  | .lineBreakInString => "line breaks are not allowed in a string."
  | .badContinuation =>
    "invalid string continuation. Expected to start another string segment."
  | .emptyEscape radix shown =>
    "invalid " ++ radix.text ++ " escape code in string: '" ++ shown ++ "' is not a "
      ++ radix.text ++ " digit. Ignored."
  | .unterminatedComment => "unterminated comment"
  | .readFailure message => "read failed: " ++ message
  | .unexpected wanted got => "expected a " ++ wanted.name ++ " but got a " ++ got.name ++ "."
  | .noneOf wanted got =>
    "expected " ++ String.intercalate ", " (wanted.map (·.name)) ++ " but got a " ++ got.name ++ "."
  | .notTopLevel got =>
    "expected 'class', symbol, or 'import' but got a " ++ got.name

/-- The event for a fault at a location. -/
def event (f : Fault) (l : Location) : Diagnostic.Event :=
  (⟨f.level, f.code, f.message, none, []⟩ : Diagnostic.Event).located l

end Fault
end ClassIndex
