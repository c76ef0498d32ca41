/-
# JSON text

Stored symbols, structured log lines and dumped settings are compact JSON: no spaces, fields in
the order given, whole numbers only.

| character | written as |
| --- | --- |
| `"`, `\` | after a backslash |
| backspace, tab, line feed, form feed, carriage return | `\b`, `\t`, `\n`, `\f`, `\r` |
| any other below U+0020 | `\u00xx` |
| all else | itself |

The reader takes exactly this form.
-/

import ClassIndex.Text.Decimal
import ClassIndex.Text.Escape

namespace ClassIndex

/-- A JSON value with whole numbers. -/
inductive Json where
  | null
  | bool (b : Bool)
  | num (n : Int)
  | str (s : String)
  | arr (items : List Json)
  | obj (fields : List (String × Json))
deriving Inhabited

namespace Json

/-- A whole number from zero up. -/
abbrev nat (n : Nat) : Json := .num (Int.ofNat n)

/-- One character inside a JSON string. -/
def escapeChar (c : Char) : List Char :=
  if c = '"' || c = '\\' then ['\\', c]
  else if c = '\x08' then ['\\', 'b']
  else if c = '\t' then ['\\', 't']
  else if c = '\n' then ['\\', 'n']
  else if c = '\x0c' then ['\\', 'f']
  else if c = '\r' then ['\\', 'r']
  else if c.toNat < 0x20 then
    ['\\', 'u', '0', '0', Text.hexDigit (c.toNat / 16), Text.hexDigit (c.toNat % 16)]
  else [c]

/-- A JSON string with its quotes. -/
def quote (s : String) : List Char := '"' :: (s.toList.flatMap escapeChar ++ ['"'])

mutual

/-- The compact text of a value. -/
def render : Json → List Char
  | .null => "null".toList
  | .bool true => "true".toList
  | .bool false => "false".toList
  | .num n => Text.signed n
  | .str s => quote s
  | .arr items => '[' :: renderItems items
  | .obj fields => '\x7b' :: renderFields fields

/-- The items of an array and its closing bracket. -/
def renderItems : List Json → List Char
  | [] => [']']
  | x :: xs => render x ++ renderMoreItems xs

/-- The items after the first. -/
def renderMoreItems : List Json → List Char
  | [] => [']']
  | x :: xs => ',' :: (render x ++ renderMoreItems xs)

/-- The fields of an object and its closing brace. -/
def renderFields : List (String × Json) → List Char
  | [] => ['\x7d']
  | (k, x) :: xs => quote k ++ ':' :: (render x ++ renderMoreFields xs)

/-- The fields after the first. -/
def renderMoreFields : List (String × Json) → List Char
  | [] => ['\x7d']
  | (k, x) :: xs => ',' :: (quote k ++ ':' :: (render x ++ renderMoreFields xs))

end

/-- The compact text of a value. -/
def text (j : Json) : String := String.ofList j.render

/-- The value of a hexadecimal digit. -/
def hexValue? (c : Char) : Option Nat :=
  if '0' ≤ c && c ≤ '9' then some (c.toNat - 48)
  else if 'a' ≤ c && c ≤ 'f' then some (c.toNat - 87)
  else none

/-- The character that stands after a backslash. -/
def unescape? : Char → Option Char
  | '"' => some '"'
  | '\\' => some '\\'
  | 'b' => some '\x08'
  | 't' => some '\t'
  | 'n' => some '\n'
  | 'f' => some '\x0c'
  | 'r' => some '\r'
  | _ => none

/-- The rest of a JSON string after its opening quote, and the text after its closing one. -/
def readChars : List Char → Option (List Char × List Char)
  | '"' :: rest => some ([], rest)
  | '\\' :: 'u' :: '0' :: '0' :: a :: b :: rest =>
    match hexValue? a, hexValue? b, readChars rest with
    | some m, some n, some (cs, rest) => some (Char.ofNat (16 * m + n) :: cs, rest)
    | _, _, _ => none
  | '\\' :: a :: rest =>
    match unescape? a, readChars rest with
    | some c, some (cs, rest) => some (c :: cs, rest)
    | _, _ => none
  | c :: rest =>
    if c = '\\' || c.toNat < 0x20 then none
    else match readChars rest with
      | some (cs, rest) => some (c :: cs, rest)
      | none => none
  | [] => none

/-- A JSON string with both its quotes. -/
def readString? : List Char → Option (String × List Char)
  | '"' :: rest => (readChars rest).map fun (cs, rest) => (String.ofList cs, rest)
  | _ => none

/-- A whole number: as many digits as follow, after a sign if there is one. -/
def readNumber? (cs : List Char) : Option (Json × List Char) :=
  let digits (cs : List Char) := (cs.takeWhile Text.isDigit, cs.dropWhile Text.isDigit)
  match cs with
  | '-' :: rest =>
    match digits rest with
    | ([], _) => none
    | (ds, rest) => some (.num (-(Text.ofDecimal ds : Int)), rest)
  | _ =>
    match digits cs with
    | ([], _) => none
    | (ds, rest) => some (.num (Text.ofDecimal ds), rest)

mutual

/-- A value at the head of a text, and the text after it. The number bounds the nesting. -/
def read? : Nat → List Char → Option (Json × List Char)
  | 0, _ => none
  | n + 1, cs =>
    match cs with
    | 'n' :: 'u' :: 'l' :: 'l' :: rest => some (.null, rest)
    | 't' :: 'r' :: 'u' :: 'e' :: rest => some (.bool true, rest)
    | 'f' :: 'a' :: 'l' :: 's' :: 'e' :: rest => some (.bool false, rest)
    | '"' :: rest => (readChars rest).map fun (cs, rest) => (.str (String.ofList cs), rest)
    | '[' :: ']' :: rest => some (.arr [], rest)
    | '[' :: rest => (readItems? n rest).map fun (xs, rest) => (.arr xs, rest)
    | '\x7b' :: '\x7d' :: rest => some (.obj [], rest)
    | '\x7b' :: rest => (readFields? n rest).map fun (xs, rest) => (.obj xs, rest)
    | _ => readNumber? cs

/-- One or more items up to the closing bracket. -/
def readItems? : Nat → List Char → Option (List Json × List Char)
  | 0, _ => none
  | n + 1, cs =>
    match read? n cs with
    | some (x, ',' :: rest) => (readItems? n rest).map fun (xs, rest) => (x :: xs, rest)
    | some (x, ']' :: rest) => some ([x], rest)
    | _ => none

/-- One or more fields up to the closing brace. -/
def readFields? : Nat → List Char → Option (List (String × Json) × List Char)
  | 0, _ => none
  | n + 1, cs =>
    match readString? cs with
    | some (k, ':' :: rest) =>
      match read? n rest with
      | some (x, ',' :: rest) => (readFields? n rest).map fun (xs, rest) => ((k, x) :: xs, rest)
      | some (x, '\x7d' :: rest) => some ([(k, x)], rest)
      | _ => none
    | _ => none

end

/-- The value that a text is the compact form of. -/
def parse? (s : String) : Option Json :=
  match read? (s.length + 1) s.toList with
  | some (j, []) => some j
  | _ => none

end Json
end ClassIndex
