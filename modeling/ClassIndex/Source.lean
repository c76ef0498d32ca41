/-
# Open sources

An open source hands out its bytes one at a time and takes back bytes that were read too far; what
was given back last is handed out first. Its position follows both ways. When the bytes run out,
the source ends, after one notice if it is a read failure that ends it, and stays ended.
-/

import ClassIndex.Position

namespace ClassIndex

/-- What one read of a source yields. -/
inductive Reading where
  | byte (b : UInt8)
  | ended
  | failed (message : String)
deriving DecidableEq, Repr

/-- A source being read. -/
structure Source where
  name : String
  /-- The bytes not yet read. -/
  unread : List UInt8
  /-- The failure that meets whoever reads past the last byte. -/
  failure? : Option String
  /-- The bytes given back, the last one first. -/
  returned : List UInt8
  position : Position
  /-- The column that the most recent line feed stood in. -/
  lastColumn : Nat
  /-- The end has been read. -/
  ended : Bool
deriving DecidableEq, Inhabited, Repr

namespace Source

/-- A source of which nothing is read yet. -/
def ofBytes (name : String) (bytes : List UInt8) (failure? : Option String) : Source :=
  ⟨name, bytes, failure?, [], .start, 1, false⟩

/-- The bytes that are still to be handed out. -/
def rest (s : Source) : List UInt8 := s.returned ++ s.unread

/-- The number of bytes that are still to be handed out. -/
def remaining (s : Source) : Nat := s.returned.length + s.unread.length

/-- Moves the position over a byte. -/
def pass (s : Source) (b : UInt8) : Source :=
  { s with
    lastColumn := if b = 0x0a then s.position.column else s.lastColumn
    position := s.position.advance b }

@[simp] theorem remaining_pass (s : Source) (b : UInt8) : (s.pass b).remaining = s.remaining := rfl

/-- Reads one byte. -/
def read (s : Source) : Reading × Source :=
  match s.returned with
  | b :: returned => (.byte b, { s with returned }.pass b)
  | [] =>
    if s.ended then (.ended, s)
    else match s.unread with
      | b :: unread => (.byte b, { s with unread }.pass b)
      | [] => match s.failure? with
        | some message => (.failed message, { s with ended := true })
        | none => (.ended, { s with ended := true })

theorem remaining_read_byte {s t : Source} {b : UInt8} (h : s.read = (.byte b, t)) :
    s.remaining = t.remaining + 1 := by
  unfold read at h
  split at h
  · rename_i r hr
    cases h; simp [remaining, pass, hr]; omega
  · rename_i hr
    split at h
    · cases h
    · split at h
      · rename_i u hu
        cases h; simp [remaining, pass, hr, hu]
      · split at h <;> cases h

theorem remaining_read_ended {s t : Source} (h : s.read = (.ended, t)) :
    t.remaining = s.remaining := by
  unfold read at h
  split at h
  · cases h
  · split at h
    · cases h; rfl
    · split at h
      · cases h
      · split at h <;> cases h; rfl

theorem remaining_read_failed {s t : Source} {m : String} (h : s.read = (.failed m, t)) :
    t.remaining = s.remaining := by
  unfold read at h
  split at h
  · cases h
  · split at h
    · cases h
    · split at h
      · cases h
      · split at h <;> cases h; rfl

/-- Takes back a byte that was read. Only the most recent line feed's column is known. -/
def giveBack (s : Source) (b : UInt8) : Source :=
  { s with
    returned := b :: s.returned
    position :=
      if b = 0x0a then ⟨s.position.offset - 1, max (s.position.line - 1) 1, s.lastColumn⟩
      else ⟨s.position.offset - 1, s.position.line, max (s.position.column - 1) 1⟩ }

@[simp] theorem remaining_giveBack (s : Source) (b : UInt8) :
    (s.giveBack b).remaining = s.remaining + 1 := by
  simp [giveBack, remaining]; omega

/-- Where the source is being read. -/
def location (s : Source) : Location := ⟨s.name, s.position.line, s.position.column⟩

end Source
end ClassIndex
