/-
# Tables of byte strings

A table stores a non-empty byte string under each of its keys. Entries lie in a row of slots
whose number is a power of two. A key's search begins at the slot its hash names and goes on to
the right, round the end, until it meets the key or a free slot. Before an entry is stored the
row doubles if it would otherwise be more than three quarters full with one slot to spare.

| hash step | value |
| --- | --- |
| start | 2166136261 |
| each byte | exclusive or, then times 16777619, in 32 bits |

Keys are listed in slot order, and a cursor walks through them in that order.
-/

import ClassIndex.Text.Utf8

namespace ClassIndex

/-- The 32-bit hash of a byte string. -/
def fnv1a (bytes : List UInt8) : UInt32 :=
  bytes.foldl (fun h b => (h ^^^ b.toUInt32) * 16777619) 2166136261

/-- What a table refuses, and about which key. -/
inductive TableError where
  | alreadyExists (key : String)
  | notFound (key : String)
  | emptyValue (key : String)
deriving DecidableEq, Repr

/-- The code under which a refusal is reported. -/
def TableError.code : TableError → String
  | .alreadyExists _ => "E050"
  | .notFound _ => "E051"
  | .emptyValue _ => "E052"

/-- The wording of a refusal. -/
def TableError.message : TableError → String
  | .alreadyExists key => "key already exists: " ++ key
  | .notFound key => "key not found: " ++ key
  | .emptyValue key => "empty value for key: " ++ key

/-- A key with the bytes stored under it. -/
structure TableEntry where
  key : String
  value : List UInt8
deriving DecidableEq

/-- A row of slots, the number of those taken, and the slot that the cursor stands on. -/
structure Table where
  slots : Array (Option TableEntry)
  count : Nat
  cursor : Option Nat

namespace Table

/-- The number of slots of a new table. -/
def initialCapacity : Nat := 8

/-- A table without entries. -/
def empty : Table := ⟨Array.replicate initialCapacity none, 0, none⟩

instance : Inhabited Table := ⟨empty⟩

/-- The number of slots. -/
def capacity (t : Table) : Nat := t.slots.size

/-- The number of entries. -/
def size (t : Table) : Nat := t.count

/-- The slot at which a key's search begins. -/
def home (capacity : Nat) (key : String) : Nat := (fnv1a (Text.utf8 key)).toNat % capacity

/-- Goes right from a slot, at most so many times, to the key's entry or to a free slot. -/
def probe (slots : Array (Option TableEntry)) (key : String) : Nat → Nat → Nat
  | 0, i => i
  | steps + 1, i =>
    match slots[i]? with
    | some (some e) => if e.key = key then i else probe slots key steps ((i + 1) % slots.size)
    | _ => i

/-- The slot that holds a key, or the free slot where it would go. -/
def seek (slots : Array (Option TableEntry)) (key : String) : Nat :=
  probe slots key slots.size (home slots.size key)

/-- The entry in a slot. -/
def entryAt (slots : Array (Option TableEntry)) (i : Nat) : Option TableEntry :=
  (slots[i]?).getD none

/-- Puts an entry where its key's search ends. -/
def place (slots : Array (Option TableEntry)) (e : TableEntry) : Array (Option TableEntry) :=
  slots.setIfInBounds (seek slots e.key) (some e)

/-- The entries in slot order. -/
def entries (t : Table) : List TableEntry := t.slots.toList.filterMap id

/-- The keys in slot order. -/
def keys (t : Table) : List String := t.entries.map (·.key)

/-- A row of twice as many slots with the same entries, placed in slot order. -/
def rehashed (slots : Array (Option TableEntry)) : Array (Option TableEntry) :=
  (slots.toList.filterMap id).foldl place (Array.replicate (2 * slots.size) none)

/-- Doubles the row if another entry would leave it more than three quarters full with one slot
to spare. -/
def reserve (t : Table) : Table :=
  if 4 * (t.count + 2) ≤ 3 * t.slots.size then t else { t with slots := rehashed t.slots }

/-- The bytes stored under a key. -/
def get? (t : Table) (key : String) : Option (List UInt8) :=
  (entryAt t.slots (seek t.slots key)).map (·.value)

/-- A key is stored. -/
def contains (t : Table) (key : String) : Bool := (t.get? key).isSome

/-- The number of bytes stored under a key, zero if there is none. -/
def entrySize (t : Table) (key : String) : Nat := ((t.get? key).getD []).length

/-- Stores a new key. The row may double even if the key turns out to be taken. -/
def insert (t : Table) (key : String) (value : List UInt8) : Except TableError Unit × Table :=
  if value.isEmpty then (.error (.emptyValue key), t)
  else
    let t := t.reserve
    let i := seek t.slots key
    match entryAt t.slots i with
    | some _ => (.error (.alreadyExists key), t)
    | none =>
      (.ok (), { t with
        slots := t.slots.setIfInBounds i (some ⟨key, value⟩)
        count := t.count + 1 })

/-- Stores other bytes under a key that is present. -/
def replace (t : Table) (key : String) (value : List UInt8) : Except TableError Unit × Table :=
  if value.isEmpty then (.error (.emptyValue key), t)
  else
    let i := seek t.slots key
    match entryAt t.slots i with
    | some e =>
      (.ok (), { t with slots := t.slots.setIfInBounds i (some ⟨e.key, value⟩) })
    | none => (.error (.notFound key), t)

/-- Copies the bytes under a key over the head of a given row of bytes, as many as fit. -/
def find (t : Table) (key : String) (out : List UInt8) : Except TableError (Nat × List UInt8) :=
  match t.get? key with
  | none => .error (.notFound key)
  | some value =>
    let copied := min value.length out.length
    .ok (copied, value.take copied ++ out.drop copied)

/-- The first taken slot from a slot on, searching so many slots. -/
def nextTaken (slots : Array (Option TableEntry)) : Nat → Nat → Option Nat
  | 0, _ => none
  | n + 1, i => if (entryAt slots i).isSome then some i else nextTaken slots n (i + 1)

/-- Moves the cursor to the next entry, from the first slot after a reset; past the last entry
it stays behind the row. -/
def iterate (t : Table) (reset : Bool) : Option String × Table :=
  let start := match reset, t.cursor with
    | false, some i => i + 1
    | _, _ => 0
  match nextTaken t.slots (t.slots.size - start) start with
  | some i => ((entryAt t.slots i).map (·.key), { t with cursor := some i })
  | none => (none, { t with cursor := some t.slots.size })

end Table
end ClassIndex
