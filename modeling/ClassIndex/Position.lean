/-
# Positions in a source

A position counts the bytes before it, and the lines and columns from one. A line feed ends its
line; every other byte takes one column.

The counts have no bound here. A reader that counts lines and columns in 32-bit words, and shows
them as signed ones, names these places in every source of fewer than 2 ^ 31 - 1 bytes: no line or
column is more than one above the number of bytes before it. In larger sources its words may
overflow, and the places are not those it names.
-/

import ClassIndex.Json

namespace ClassIndex

/-- A place in a source: bytes before it, line, column. -/
structure Position where
  offset : Nat
  line : Nat
  column : Nat
deriving DecidableEq, Inhabited, Repr

namespace Position

/-- The place before the first byte. -/
def start : Position := ⟨0, 1, 1⟩

/-- The place that no byte of any source has. -/
def zero : Position := ⟨0, 0, 0⟩

/-- The place after one more byte. -/
def advance (p : Position) (b : UInt8) : Position :=
  if b = 0x0a then ⟨p.offset + 1, p.line + 1, 1⟩ else ⟨p.offset + 1, p.line, p.column + 1⟩

@[simp] theorem offset_advance (p : Position) (b : UInt8) :
    (p.advance b).offset = p.offset + 1 := by
  unfold advance; split <;> rfl

/-- Line and column. -/
def text (p : Position) : String := toString p.line ++ ":" ++ toString p.column

/-- The order of positions: by offset, then by line, then by column. -/
def compare (p q : Position) : Ordering :=
  (Ord.compare p.offset q.offset).then
    ((Ord.compare p.line q.line).then (Ord.compare p.column q.column))

/-- A position as data. -/
def json (p : Position) : Json :=
  .obj [("offset", .nat p.offset), ("line", .nat p.line), ("column", .nat p.column)]

end Position

/-- A stretch of a source, its end excluded. -/
structure Span where
  start : Position
  stop : Position
deriving DecidableEq, Inhabited, Repr

namespace Span

/-- The stretch of one byte that is no line feed. -/
def single (p : Position) : Span := ⟨p, p.advance 0x20⟩

/-- The number of bytes. -/
def length (s : Span) : Nat := s.stop.offset - s.start.offset

/-- A stretch without bytes. -/
def isEmpty (s : Span) : Bool := s.start.offset == s.stop.offset

/-- Both ends; on one line the line is named once. -/
def text (s : Span) : String :=
  if s.start.line = s.stop.line then
    toString s.start.line ++ ":" ++ toString s.start.column ++ "-" ++ toString s.stop.column
  else s.start.text ++ "-" ++ s.stop.text

/-- A stretch as data. -/
def json (s : Span) : Json := .obj [("start", s.start.json), ("end", s.stop.json)]

end Span

/-- A line and column of a named source; lines below one stand for no place. -/
structure Location where
  file : String
  line : Int
  column : Int
deriving DecidableEq, Inhabited, Repr

/-- The stretch of one byte at a location that names a place. -/
def Location.span? (l : Location) : Option Span :=
  if 0 < l.line then some (Span.single ⟨0, l.line.toNat, (max l.column 1).toNat⟩) else none

end ClassIndex
