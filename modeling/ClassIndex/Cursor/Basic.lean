/-
# The reading cursor

While a token is read, only one source is touched: the innermost one. The cursor holds that
source, the bytes kept for the token, the place where the token started, and the faults found so
far. A reader of a token is a function on cursors; it sees no other source.
-/

import ClassIndex.Buffer
import ClassIndex.Byte
import ClassIndex.Fault
import ClassIndex.Source

namespace ClassIndex

/-- A source in the middle of a token. -/
structure Cursor where
  source : Source
  lexeme : Buffer
  start : Position
  faults : List Diagnostic.Event
  /-- Unknown bytes are warned of. -/
  warns : Bool

namespace Cursor

/-- The number of bytes that are still to be handed out. -/
def remaining (c : Cursor) : Nat := c.source.remaining

/-- Records a fault at the present position. -/
def report (c : Cursor) (f : Fault) : Cursor :=
  { c with faults := c.faults ++ [f.event c.source.location] }

@[simp] theorem remaining_report (c : Cursor) (f : Fault) :
    (c.report f).remaining = c.remaining := rfl

/-- Reads one byte; none at the end of the source. A read failure is reported. -/
def next (c : Cursor) : Option UInt8 × Cursor :=
  match c.source.read with
  | (.byte b, source) => (some b, { c with source })
  | (.ended, source) => (none, { c with source })
  | (.failed message, source) => (none, { c with source }.report (.readFailure message))

theorem remaining_next_some {c d : Cursor} {b : UInt8} (h : c.next = (some b, d)) :
    c.remaining = d.remaining + 1 := by
  unfold next at h
  split at h
  · rename_i hr; cases h; exact Source.remaining_read_byte hr
  · cases h
  · cases h

theorem remaining_next_none {c d : Cursor} (h : c.next = (none, d)) :
    d.remaining = c.remaining := by
  unfold next at h
  split at h
  · cases h
  · rename_i hr; cases h; exact Source.remaining_read_ended hr
  · rename_i hr; cases h; exact Source.remaining_read_failed hr

/-- Gives back what was read; the end of a source is met again without that. -/
def giveBack (c : Cursor) : Option UInt8 → Cursor
  | some b => { c with source := c.source.giveBack b }
  | none => c

@[simp] theorem remaining_giveBack_some (c : Cursor) (b : UInt8) :
    (c.giveBack (some b)).remaining = c.remaining + 1 := Source.remaining_giveBack c.source b

@[simp] theorem giveBack_none (c : Cursor) : c.giveBack none = c := rfl

@[simp] theorem lexeme_next (c : Cursor) : c.next.2.lexeme = c.lexeme := by
  unfold next
  split <;> rfl

@[simp] theorem start_next (c : Cursor) : c.next.2.start = c.start := by
  unfold next
  split <;> rfl

@[simp] theorem lexeme_giveBack (c : Cursor) (x : Option UInt8) :
    (c.giveBack x).lexeme = c.lexeme := by
  cases x <;> rfl

@[simp] theorem start_giveBack (c : Cursor) (x : Option UInt8) :
    (c.giveBack x).start = c.start := by
  cases x <;> rfl

/-- Reading a byte and giving it back leaves as many as before. -/
theorem remaining_giveBack_next {c d : Cursor} {b : Option UInt8} (h : c.next = (b, d)) :
    (d.giveBack b).remaining = c.remaining := by
  cases b with
  | none => exact remaining_next_none h
  | some b => rw [remaining_giveBack_some, remaining_next_some h]

/-- Keeps a byte for the token. -/
def keep (c : Cursor) (b : UInt8) : Cursor := { c with lexeme := c.lexeme.push b }

@[simp] theorem remaining_keep (c : Cursor) (b : UInt8) : (c.keep b).remaining = c.remaining := rfl

/-- Keeps a row of bytes for the token. -/
def keepAll (c : Cursor) (bs : List UInt8) : Cursor := { c with lexeme := c.lexeme.append bs }

@[simp] theorem remaining_keepAll (c : Cursor) (bs : List UInt8) :
    (c.keepAll bs).remaining = c.remaining := rfl

/-- Forgets the bytes kept for the token. -/
def forget (c : Cursor) : Cursor := { c with lexeme := c.lexeme.clear }

@[simp] theorem remaining_forget (c : Cursor) : c.forget.remaining = c.remaining := rfl

/-- Keeps the longest run of bytes of a class. -/
def keepWhile (p : UInt8 → Bool) (c : Cursor) : Cursor :=
  match _h : c.next with
  | (some b, d) => if p b then keepWhile p (d.keep b) else d.giveBack (some b)
  | (none, d) => d
termination_by c.remaining
decreasing_by rw [remaining_keep]; have := remaining_next_some _h; omega

theorem keepWhile_eq (p : UInt8 → Bool) (c : Cursor) :
    keepWhile p c = match c.next with
      | (some b, d) => if p b then keepWhile p (d.keep b) else d.giveBack (some b)
      | (none, d) => d := by
  rw [keepWhile]
  split <;> rename_i h <;> simp only [h]

theorem remaining_keepWhile (p : UInt8 → Bool) (c : Cursor) :
    (keepWhile p c).remaining ≤ c.remaining := by
  fun_induction keepWhile p c with
  | case1 c b d h hp ih => have := remaining_next_some h; simp at ih; omega
  | case2 c b d h hp => have := remaining_giveBack_next h; omega
  | case3 c d h => have := remaining_next_none h; omega

/-- Passes over the longest run of bytes of a class. -/
def skipWhile (p : UInt8 → Bool) (c : Cursor) : Cursor :=
  match _h : c.next with
  | (some b, d) => if p b then skipWhile p d else d.giveBack (some b)
  | (none, d) => d
termination_by c.remaining
decreasing_by have := remaining_next_some _h; omega

theorem skipWhile_eq (p : UInt8 → Bool) (c : Cursor) :
    skipWhile p c = match c.next with
      | (some b, d) => if p b then skipWhile p d else d.giveBack (some b)
      | (none, d) => d := by
  rw [skipWhile]
  split <;> rename_i h <;> simp only [h]

theorem remaining_skipWhile (p : UInt8 → Bool) (c : Cursor) :
    (skipWhile p c).remaining ≤ c.remaining := by
  fun_induction skipWhile p c with
  | case1 c b d h hp ih => have := remaining_next_some h; omega
  | case2 c b d h hp => have := remaining_giveBack_next h; omega
  | case3 c d h => have := remaining_next_none h; omega

/-- The present position of the source. -/
def position (c : Cursor) : Position := c.source.position

end Cursor
end ClassIndex
