/-
# Byte buffers

A buffer collects the bytes of a lexeme or of a decorated name. Beside its contents it keeps the
room it has made: a capacity that starts at 8 and doubles until the contents and one more byte
fit. Shortening the contents keeps the room, so two buffers with the same contents may differ.
-/

import ClassIndex.Text.Utf8

namespace ClassIndex

/-- Bytes, and the room made for them. -/
structure Buffer where
  bytes : Array UInt8
  capacity : Nat
deriving DecidableEq

namespace Buffer

/-- The room of a new buffer. -/
def initialCapacity : Nat := 8

/-- A buffer without contents. -/
def empty : Buffer := ⟨#[], initialCapacity⟩

instance : Inhabited Buffer := ⟨empty⟩

/-- The first doubling of a capacity that reaches what is needed. -/
def doubled (capacity needed : Nat) : Nat :=
  if 0 < capacity ∧ capacity < needed then doubled (2 * capacity) needed else capacity
termination_by needed - capacity

theorem le_doubled (capacity needed : Nat) : capacity ≤ doubled capacity needed := by
  fun_induction doubled capacity needed with
  | case1 => omega
  | case2 => exact Nat.le_refl _

theorem needed_le_doubled {capacity : Nat} (h : 0 < capacity) (needed : Nat) :
    needed ≤ doubled capacity needed := by
  fun_induction doubled capacity needed with
  | case1 _ _ ih => exact ih (by omega)
  | case2 => omega

/-- The number of bytes held. -/
def length (b : Buffer) : Nat := b.bytes.size

/-- The contents in order. -/
def toList (b : Buffer) : List UInt8 := b.bytes.toList

/-- The contents as text, undecodable parts replaced. -/
def text (b : Buffer) : String := Text.lossy b.toList

/-- Nothing is held. -/
def isEmpty (b : Buffer) : Bool := b.bytes.isEmpty

/-- The last byte held. -/
def last? (b : Buffer) : Option UInt8 := b.bytes.back?

/-- Forgets the contents and keeps the room. -/
def clear (b : Buffer) : Buffer := { b with bytes := #[] }

@[simp] theorem toList_clear (b : Buffer) : b.clear.toList = [] := rfl

/-- Adds one byte. -/
def push (b : Buffer) (x : UInt8) : Buffer :=
  let capacity := doubled b.capacity (b.bytes.size + 2)
  ⟨b.bytes.push x, capacity⟩

@[simp] theorem toList_push (b : Buffer) (x : UInt8) : (b.push x).toList = b.toList ++ [x] := by
  simp [push, toList]

/-- Adds a row of bytes. -/
def append (b : Buffer) (xs : List UInt8) : Buffer :=
  let capacity := doubled b.capacity (b.bytes.size + xs.length + 1)
  ⟨b.bytes ++ xs, capacity⟩

@[simp] theorem toList_append (b : Buffer) (xs : List UInt8) :
    (b.append xs).toList = b.toList ++ xs := by
  simp [append, toList]

/-- Adds the bytes of a text. -/
def appendText (b : Buffer) (s : String) : Buffer := b.append (Text.utf8 s)

/-- A buffer that holds a text. -/
def ofText (s : String) : Buffer := empty.appendText s

/-- The four bytes of a word, highest first. -/
def bigEndian (v : UInt32) : List UInt8 :=
  [(v >>> 24).toUInt8, (v >>> 16).toUInt8, (v >>> 8).toUInt8, v.toUInt8]

/-- The bytes of a word, highest first, without leading zeros; zero itself is one zero byte. -/
def pack (v : UInt32) : List UInt8 :=
  match (bigEndian v).dropWhile (· == 0) with
  | [] => [0]
  | bytes => bytes

/-- Adds the shortest form of a number of 32 bits, negative ones in two's complement. -/
def appendPacked (b : Buffer) (v : Int32) : Buffer := b.append (pack v.toUInt32)

/-- Cuts the contents to a length; a longer length changes nothing. -/
def truncate (b : Buffer) (length : Nat) : Buffer := { b with bytes := b.bytes.take length }

@[simp] theorem toList_truncate (b : Buffer) (n : Nat) :
    (b.truncate n).toList = b.toList.take n := by
  simp [truncate, toList]

end Buffer
end ClassIndex
