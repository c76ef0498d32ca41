/-
# Reading TOML

The reader takes a document apart into its statements. Lines end with a line feed, perhaps after a
carriage return; no other control character but the tab stands anywhere. Arrays may run over lines
and hold comments, tables between braces may not. Nesting and keys are limited to 79 steps.
-/

import ClassIndex.Toml.Literal

namespace ClassIndex
namespace Toml

/-- A reader: what it makes of the head of a text, and the text after it. -/
abbrev Read (α : Type) := List Char → Option (α × List Char)

/-- A blank within a line. -/
def isWs (c : Char) : Bool := c == ' ' || c == '\t'

/-- The text after its blanks. -/
def skipWs (cs : List Char) : List Char := cs.dropWhile isWs

/-- A character that may stand in a comment and, unless it is a quote, in a string. -/
def isPlain (c : Char) : Bool := c == '\t' || (0x20 ≤ c.toNat && c.toNat != 0x7f)

/-- The text after a comment, if one begins it. -/
def skipComment : List Char → List Char
  | '#' :: rest => rest.dropWhile isPlain
  | cs => cs

/-- The text after the end of a line, which blanks and a comment may stand before. -/
def skipLineEnd (cs : List Char) : Option (List Char) :=
  match skipComment (skipWs cs) with
  | [] => some []
  | '\n' :: rest => some rest
  | '\r' :: '\n' :: rest => some rest
  | _ => none

/-- The text after blanks, comments and line ends. -/
def skipLines (inComment : Bool) : List Char → Option (List Char)
  | [] => some []
  | '\n' :: rest => skipLines false rest
  | '\r' :: '\n' :: rest => skipLines false rest
  | c :: rest =>
    if inComment then if isPlain c then skipLines true rest else none
    else if isWs c then skipLines false rest
    else if c = '#' then skipLines true rest
    else some (c :: rest)

/-- The character of a code point, which must be one. -/
def scalar? (ds : List (Option Nat)) : Option Char :=
  match ds.mapM id with
  | some ds =>
    let n := ofDigits 16 ds
    if h : n.isValidChar then some ⟨n.toUInt32, by
      have : n < 2 ^ 32 := by rcases h with h | h <;> omega
      simpa [UInt32.isValidChar, Nat.toUInt32, UInt32.toNat_ofNat_of_lt' this] using h⟩
    else none
  | none => none

/-- The character that stands for a letter after a backslash. -/
def escaped? : Char → Option Char
  | 'b' => some '\x08'
  | 't' => some '\t'
  | 'n' => some '\n'
  | 'f' => some '\x0c'
  | 'r' => some '\r'
  | '"' => some '"'
  | '\\' => some '\\'
  | _ => none

/-- Puts a character before what a reader made. -/
def before (c? : Option Char) (r : Option (List Char × List Char)) :
    Option (List Char × List Char) :=
  match c?, r with
  | some c, some (cs, rest) => some (c :: cs, rest)
  | _, _ => none

/-- A string between double quotes, after the first. -/
def basic : Read (List Char)
  | '"' :: rest => some ([], rest)
  | '\\' :: 'u' :: a :: b :: c :: d :: rest =>
    before (scalar? ([a, b, c, d].map (digit? 16))) (basic rest)
  | '\\' :: 'U' :: a :: b :: c :: d :: e :: f :: g :: h :: rest =>
    before (scalar? ([a, b, c, d, e, f, g, h].map (digit? 16))) (basic rest)
  | '\\' :: c :: rest => before (escaped? c) (basic rest)
  | c :: rest => before (if isPlain c && c != '\\' then some c else none) (basic rest)
  | [] => none

/-- A string between single quotes, after the first. -/
def literal : Read (List Char)
  | '\'' :: rest => some ([], rest)
  | c :: rest => before (if isPlain c then some c else none) (literal rest)
  | [] => none

/-- What stands before the end of a string between triple quotes: up to two more of them. -/
def closing (quote : Char) (rest : List Char) : List Char × List Char :=
  match rest with
  | a :: b :: rest' =>
    if a = quote && b = quote then ([a, b], rest')
    else if a = quote then ([a], b :: rest')
    else ([], rest)
  | [a] => if a = quote then ([a], []) else ([], rest)
  | [] => ([], [])

/-- A line end follows blanks. -/
def endsLine (cs : List Char) : Bool :=
  match skipWs cs with
  | '\n' :: _ | '\r' :: '\n' :: _ => true
  | _ => false

/-- A string between triple double quotes, after the first three. A backslash at the end of a
line takes all blanks and line ends up to the next character; `trims` says that it does so here. -/
def longBasic (trims : Bool) : Read (List Char)
  | '"' :: '"' :: '"' :: rest => some (closing '"' rest)
  | '\n' :: rest => if trims then longBasic true rest else before (some '\n') (longBasic false rest)
  | '\r' :: '\n' :: rest =>
    if trims then longBasic true rest else before (some '\n') (longBasic false rest)
  | '\\' :: 'u' :: a :: b :: c :: d :: rest =>
    before (scalar? ([a, b, c, d].map (digit? 16))) (longBasic false rest)
  | '\\' :: 'U' :: a :: b :: c :: d :: e :: f :: g :: h :: rest =>
    before (scalar? ([a, b, c, d, e, f, g, h].map (digit? 16))) (longBasic false rest)
  | '\\' :: c :: rest =>
    if endsLine (c :: rest) then longBasic true (c :: rest)
    else before (escaped? c) (longBasic false rest)
  | c :: rest =>
    if trims && isWs c then longBasic true rest
    else before (if isPlain c && c != '\\' then some c else none) (longBasic false rest)
  | [] => none

/-- A string between triple single quotes, after the first three. -/
def longLiteral : Read (List Char)
  | '\'' :: '\'' :: '\'' :: rest => some (closing '\'' rest)
  | '\n' :: rest => before (some '\n') (longLiteral rest)
  | '\r' :: '\n' :: rest => before (some '\n') (longLiteral rest)
  | c :: rest => before (if isPlain c then some c else none) (longLiteral rest)
  | [] => none

/-- The text after one line end that begins it. -/
def skipFirstLineEnd : List Char → List Char
  | '\n' :: rest => rest
  | '\r' :: '\n' :: rest => rest
  | cs => cs

/-- A string of any of the four kinds. -/
def stringValue? (cs : List Char) : Option (Option (List Char × List Char)) :=
  match cs with
  | '"' :: '"' :: '"' :: rest => some (longBasic false (skipFirstLineEnd rest))
  | '"' :: rest => some (basic rest)
  | '\'' :: '\'' :: '\'' :: rest => some (longLiteral (skipFirstLineEnd rest))
  | '\'' :: rest => some (literal rest)
  | _ => none

/-- A character of a key without quotes. -/
def inKey (c : Char) : Bool := c.isAlphanum || c == '-' || c == '_'

/-- One step of a key. -/
def simpleKey (cs : List Char) : Option (String × List Char) :=
  match cs with
  | '"' :: rest => (basic rest).map fun (s, rest) => (String.ofList s, rest)
  | '\'' :: rest => (literal rest).map fun (s, rest) => (String.ofList s, rest)
  | _ =>
    match cs.takeWhile inKey with
    | [] => none
    | key => some (String.ofList key, cs.dropWhile inKey)

/-- The most steps that a key may have, and the deepest that values may be nested. -/
def stepLimit : Nat := 79

/-- The steps of a key, with blanks around them and dots between them, no more than so many. -/
def keySteps : Nat → Read (List String)
  | 0, _ => none
  | n + 1, cs =>
    match simpleKey (skipWs cs) with
    | none => none
    | some (key, rest) =>
      match skipWs rest with
      | '.' :: rest => (keySteps n rest).map fun (keys, rest) => (key :: keys, rest)
      | rest => some ([key], rest)

/-- A key, split before its last step. -/
def key (cs : List Char) : Option (List String × String × List Char) :=
  match keySteps stepLimit cs with
  | some (keys, rest) => (keys.getLast?).map fun last => (keys.dropLast, last, rest)
  | none => none

/-- A run, and the time that may follow a date after a space. -/
def runValue (cs : List Char) : Option (Toml × List Char) :=
  let run := cs.takeWhile inRun
  let rest := cs.dropWhile inRun
  match isDate run, rest with
  | true, ' ' :: more =>
    if (more.head?.map Text.isDigit).getD false then
      if isZonedTime (more.takeWhile inRun) then some (.date, more.dropWhile inRun) else none
    else some (.date, rest)
  | _, _ => (run? run).map fun v => (v, rest)

mutual

/-- A value, nested no deeper than so many steps. The first number bounds the length of what is
read. -/
def value : Nat → Nat → Read Toml
  | 0, _, _ => none
  | fuel + 1, depth, cs =>
    match stringValue? cs with
    | some s? => s?.map fun (s, rest) => (.string (String.ofList s), rest)
    | none =>
      match cs, depth with
      | '[' :: _, 0 | '\x7b' :: _, 0 => none
      | '[' :: rest, depth + 1 =>
        (items fuel depth rest).map fun (xs, rest) => (.array xs, rest)
      | '\x7b' :: rest, depth + 1 =>
        match skipWs rest with
        | '\x7d' :: rest => some (.table .inlined [], rest)
        | rest =>
          match pairs fuel depth rest with
          | some (ps, rest) => (ofAssignments? ps).map fun v => (v, rest)
          | none => none
      | _, _ => runValue cs

/-- The items of an array and its closing bracket; a comma may stand before it. -/
def items : Nat → Nat → Read (List Toml)
  | 0, _, _ => none
  | fuel + 1, depth, cs =>
    match skipLines false cs with
    | some (']' :: rest) => some ([], rest)
    | some rest =>
      match value fuel depth rest with
      | none => none
      | some (v, rest) =>
        match skipLines false rest with
        | some (',' :: rest) => (items fuel depth rest).map fun (vs, rest) => (v :: vs, rest)
        | some (']' :: rest) => some ([v], rest)
        | _ => none
    | none => none

/-- One or more assignments with commas between them, and the closing brace. -/
def pairs : Nat → Nat → Read (List (List String × String × Toml))
  | 0, _, _ => none
  | fuel + 1, depth, cs =>
    match key cs with
    | some (path, last, '=' :: rest) =>
      match value fuel depth (skipWs rest) with
      | none => none
      | some (v, rest) =>
        match skipWs rest with
        | ',' :: rest =>
          (pairs fuel depth rest).map fun (ps, rest) => ((path, last, v) :: ps, rest)
        | '\x7d' :: rest => some ([(path, last, v)], rest)
        | _ => none
    | _ => none

end

/-- One statement at the head of a line, and the lines after it. -/
def statement (fuel : Nat) (cs : List Char) : Option (Statement × List Char) :=
  match cs with
  | '[' :: '[' :: rest =>
    match key rest with
    | some (path, last, ']' :: ']' :: rest) =>
      (skipLineEnd rest).map fun rest => (.arrayHeader path last, rest)
    | _ => none
  | '[' :: rest =>
    match key rest with
    | some (path, last, ']' :: rest) =>
      (skipLineEnd rest).map fun rest => (.header path last, rest)
    | _ => none
  | _ =>
    match key cs with
    | some (path, last, '=' :: rest) =>
      match value fuel stepLimit (skipWs rest) with
      | some (v, rest) => (skipLineEnd rest).map fun rest => (.assignment path last v, rest)
      | none => none
    | _ => none

/-- The statements of a document. The number bounds the length of what is read. -/
def statements : Nat → List Char → Option (List Statement)
  | 0, _ => none
  | fuel + 1, cs =>
    match skipLines false cs with
    | none => none
    | some [] => some []
    | some cs =>
      match statement fuel cs with
      | some (s, rest) => (statements fuel rest).map (s :: ·)
      | none => none

/-- The entries of a document, which may open with a byte order mark. -/
def parse? (s : String) : Option Entries :=
  let cs := match s.toList with
    | '\ufeff' :: rest => rest
    | cs => cs
  (statements (2 * cs.length + 2) cs).bind ofStatements?

end Toml
end ClassIndex
