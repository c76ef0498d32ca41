/-
# The capacity of a buffer is its high-water mark

A buffer makes room by doubling and never gives it back. So its capacity depends on nothing but the
greatest length that it has had (`capacity_highWater`):

| greatest length | capacity |
| ---: | ---: |
| 0 … 7 | 8 |
| 8 … 15 | 16 |
| 16 … 31 | 32 |

Where a row of bytes is added to a buffer in pieces, the greatest length is met at the last of them.
So the pieces make no difference, not even to the capacity.
-/

import ClassIndex.Proofs.Buffer.Packed
import Mathlib.Data.List.Infix
import Mathlib.Order.Bounds.Basic

namespace ClassIndex
namespace Buffer

/-! ## Rooms -/

/-- A room is the least among 8, 16, 32, … that is more than a length. -/
def IsRoom (length room : Nat) : Prop :=
  IsLeast {c | (∃ k, c = 8 * 2 ^ k) ∧ length < c} room

theorem exists_doubled (capacity needed : Nat) :
    ∃ k, doubled capacity needed = capacity * 2 ^ k := by
  fun_induction doubled capacity needed with
  | case1 capacity _ ih =>
    obtain ⟨k, hk⟩ := ih
    exact ⟨k + 1, by rw [hk, Nat.pow_succ]; ring⟩
  | case2 capacity => exact ⟨0, (Nat.mul_one capacity).symm⟩

/-- Doubling stops at the first capacity that reaches what is needed. -/
theorem doubled_le {capacity needed k : Nat} (h : needed ≤ capacity * 2 ^ k) :
    doubled capacity needed ≤ capacity * 2 ^ k := by
  fun_induction doubled capacity needed generalizing k with
  | case1 capacity hlt ih =>
    cases k with
    | zero => omega
    | succ k =>
      have hpow : capacity * 2 ^ (k + 1) = 2 * capacity * 2 ^ k := by ring
      rw [hpow] at h ⊢
      exact ih h
  | case2 capacity => exact Nat.le_mul_of_pos_right _ (Nat.pow_pos (by decide))

/-- A greater length has no smaller room. -/
theorem IsRoom.mono {length length' room room' : Nat} (h : IsRoom length room)
    (h' : IsRoom length' room') (hle : length ≤ length') : room ≤ room' :=
  h.2 ⟨h'.1.1, Nat.lt_of_le_of_lt hle h'.1.2⟩

theorem isRoom_zero : IsRoom 0 initialCapacity := by
  refine ⟨⟨⟨0, rfl⟩, by decide⟩, ?_⟩
  rintro c ⟨⟨k, rfl⟩, -⟩
  exact Nat.le_mul_of_pos_right 8 (Nat.pow_pos (by decide))

/-- **Room for one more length** is made by doubling, if it is not there already. -/
theorem IsRoom.grow {greatest room : Nat} (h : IsRoom greatest room) (length : Nat) :
    IsRoom (max greatest length) (doubled room (length + 1)) := by
  obtain ⟨⟨⟨k, hk⟩, hlt⟩, hleast⟩ := h
  refine ⟨⟨?_, ?_⟩, ?_⟩
  · obtain ⟨j, hj⟩ := exists_doubled room (length + 1)
    exact ⟨k + j, by rw [hj, hk, Nat.pow_add, Nat.mul_assoc]⟩
  · have hreach := needed_le_doubled (Nat.zero_lt_of_lt hlt) (length + 1)
    have hkept := le_doubled room (length + 1)
    omega
  · rintro c ⟨⟨i, rfl⟩, hc⟩
    -- any other room is this one doubled some more times
    have hki : 8 * 2 ^ k ≤ 8 * 2 ^ i := hk ▸ hleast ⟨⟨i, rfl⟩, by omega⟩
    have hle : k ≤ i :=
      (Nat.pow_le_pow_iff_right (by decide)).1 (Nat.le_of_mul_le_mul_left hki (by decide))
    have hpow : 8 * 2 ^ i = room * 2 ^ (i - k) := by
      rw [hk, Nat.mul_assoc, ← Nat.pow_add, Nat.add_sub_cancel' hle]
    rw [hpow] at hc ⊢
    exact doubled_le (by omega)

/-! ## Calls on a buffer -/

/-- What may be added to a buffer: a byte, a row of bytes, a text, or a number in packed form. -/
inductive Addition where
  | byte (x : UInt8)
  | bytes (xs : List UInt8)
  | text (s : String)
  | packed (v : Int32)

/-- The bytes that are added. -/
def Addition.content : Addition → List UInt8
  | byte x => [x]
  | bytes xs => xs
  | text s => Text.utf8 s
  | packed v => shortest (v.toInt % 2 ^ 32).toNat

/-- A call that changes a buffer. -/
inductive Edit where
  | add (a : Addition)
  | truncate (length : Nat)
  | clear

/-- The buffer after a call. -/
def edit (b : Buffer) : Edit → Buffer
  | .add (.byte x) => b.push x
  | .add (.bytes xs) => b.append xs
  | .add (.text s) => b.appendText s
  | .add (.packed v) => b.appendPacked v
  | .truncate length => b.truncate length
  | .clear => b.clear

/-- A plain row of bytes after the same call. -/
def Edit.row (bytes : List UInt8) : Edit → List UInt8
  | add a => bytes ++ a.content
  | truncate length => bytes.take length
  | clear => []

/-- A new buffer after some calls. -/
def run (edits : List Edit) : Buffer := edits.foldl edit empty

/-- A plain row of bytes, empty at first, after the same calls. -/
def plain (edits : List Edit) : List UInt8 := edits.foldl Edit.row []

/-- The greatest length of the row, at first or after any of the calls. -/
def highWater (edits : List Edit) : Nat :=
  (edits.inits.map fun done => (plain done).length).foldl max 0

variable {edits others : List Edit}

theorem run_concat (edits : List Edit) (e : Edit) : run (edits ++ [e]) = (run edits).edit e :=
  List.foldl_concat ..

theorem plain_concat (edits : List Edit) (e : Edit) : plain (edits ++ [e]) = e.row (plain edits) :=
  List.foldl_concat ..

theorem highWater_concat (edits : List Edit) (e : Edit) :
    highWater (edits ++ [e]) = max (highWater edits) (plain (edits ++ [e])).length := by
  have hinits : (edits ++ [e]).inits = edits.inits ++ [edits ++ [e]] := by
    simp [List.inits_append]
  rw [highWater, hinits, List.map_append, List.foldl_append]
  rfl

theorem length_plain_le (edits : List Edit) : (plain edits).length ≤ highWater edits := by
  induction edits using List.reverseRecOn with
  | nil => exact Nat.le_refl 0
  | append_singleton edits e =>
    rw [highWater_concat]
    exact Nat.le_max_right _ _

theorem highWater_le_append (edits more : List Edit) :
    highWater edits ≤ highWater (edits ++ more) := by
  induction more using List.reverseRecOn with
  | nil => rw [List.append_nil]
  | append_singleton more e ih =>
    rw [← List.append_assoc, highWater_concat]
    exact ih.trans (Nat.le_max_left _ _)

/-! ## One call -/

theorem toList_edit (b : Buffer) (e : Edit) : (b.edit e).toList = e.row b.toList := by
  cases e with
  | add a =>
    cases a with
    | byte x => exact toList_push b x
    | bytes xs => exact toList_append b xs
    | text s => exact toList_append b _
    | packed v => exact toList_appendPacked b v
  | truncate length => exact toList_truncate b length
  | clear => rfl

theorem capacity_append (b : Buffer) (xs : List UInt8) :
    (b.append xs).capacity = doubled b.capacity ((b.append xs).length + 1) := by
  have hlength : (b.append xs).length = b.bytes.size + xs.length := by
    have h := congrArg List.length (toList_append b xs)
    rwa [List.length_append] at h
  rw [hlength]
  rfl

/-- An addition makes room for the new length. -/
theorem capacity_add (b : Buffer) (a : Addition) :
    (b.edit (.add a)).capacity = doubled b.capacity ((b.edit (.add a)).length + 1) := by
  cases a with
  | byte x => simp [edit, push, length]
  | bytes xs => exact capacity_append b xs
  | text s => exact capacity_append b _
  | packed v => exact capacity_append b _

/-! ## Any row of calls -/

/-- **The contents are those of a plain row of bytes.** -/
theorem toList_run (edits : List Edit) : (run edits).toList = plain edits := by
  induction edits using List.reverseRecOn with
  | nil => rfl
  | append_singleton edits e ih => rw [run_concat, toList_edit, ih, plain_concat]

theorem length_run (edits : List Edit) : (run edits).length = (plain edits).length := by
  rw [← toList_run]
  rfl

/-- **The capacity is the room of the greatest length.** -/
theorem isRoom_run (edits : List Edit) : IsRoom (highWater edits) (run edits).capacity := by
  induction edits using List.reverseRecOn with
  | nil => exact isRoom_zero
  | append_singleton edits e ih =>
    have hlength := length_plain_le edits
    rw [highWater_concat]
    cases e with
    | add a =>
      rw [← length_run, run_concat, capacity_add]
      exact ih.grow _
    | truncate length =>
      have hle : (plain (edits ++ [.truncate length])).length ≤ highWater edits := by
        rw [plain_concat, Edit.row, List.length_take]
        omega
      rw [Nat.max_eq_left hle, run_concat]
      exact ih
    | clear =>
      rw [plain_concat, Edit.row, List.length_nil, Nat.max_eq_left (Nat.zero_le _), run_concat]
      exact ih

/-- Buffers with the same contents are told apart by the rooms of their greatest lengths. -/
theorem run_eq_run_iff : run edits = run others ↔
    plain edits = plain others ∧
      ∃ room, IsRoom (highWater edits) room ∧ IsRoom (highWater others) room := by
  constructor
  · intro h
    refine ⟨by rw [← toList_run, h, toList_run], _, isRoom_run edits, ?_⟩
    rw [h]
    exact isRoom_run others
  · rintro ⟨hplain, room, hroom, hroom'⟩
    have hbytes : (run edits).bytes = (run others).bytes := by
      rw [← Array.toList_inj]
      exact (toList_run edits).trans (hplain.trans (toList_run others).symm)
    have hcapacity : (run edits).capacity = (run others).capacity :=
      ((isRoom_run edits).unique hroom).trans (hroom'.unique (isRoom_run others))
    calc run edits = ⟨(run edits).bytes, (run edits).capacity⟩ := rfl
      _ = ⟨(run others).bytes, (run others).capacity⟩ := by rw [hbytes, hcapacity]
      _ = run others := rfl

/-! ## Additions in pieces -/

theorem plain_additions (edits : List Edit) (pieces : List Addition) :
    plain (edits ++ pieces.map .add) = plain edits ++ pieces.flatMap Addition.content := by
  induction pieces using List.reverseRecOn with
  | nil => rw [List.map_nil, List.append_nil, List.flatMap_nil, List.append_nil]
  | append_singleton pieces a ih =>
    rw [List.map_append, List.map_singleton, ← List.append_assoc, plain_concat, ih, Edit.row]
    simp

/-- The last of some additions meets the greatest length, if it was not met before. -/
theorem highWater_additions (edits : List Edit) (pieces : List Addition) :
    highWater (edits ++ pieces.map .add) =
      max (highWater edits) (plain (edits ++ pieces.map .add)).length := by
  induction pieces using List.reverseRecOn with
  | nil =>
    rw [List.map_nil, List.append_nil, Nat.max_eq_left (length_plain_le edits)]
  | append_singleton pieces a ih =>
    rw [List.map_append, List.map_singleton, ← List.append_assoc, highWater_concat, ih,
      plain_concat, Edit.row, List.length_append]
    omega

/-- **Pieces make no difference:** what is added is as if it had been added at once. -/
theorem run_pieces {pieces : List Addition} {whole : Addition}
    (h : pieces.flatMap Addition.content = whole.content) :
    run (edits ++ pieces.map .add) = run (edits ++ [.add whole]) := by
  have hplain : plain (edits ++ pieces.map .add) = plain (edits ++ [.add whole]) := by
    rw [plain_additions, h, plain_concat, Edit.row]
  have hroom := isRoom_run (edits ++ pieces.map .add)
  refine run_eq_run_iff.2 ⟨hplain, _, hroom, ?_⟩
  rwa [highWater_concat, ← hplain, ← highWater_additions]

/-- **The capacity is the high-water mark.** Whatever is added to a new buffer, cut off and
forgotten again, the contents are those of a plain row of bytes, and the capacity is the room of the
greatest length that the row has had. So there is always room for one more byte, and the capacity
never shrinks; what is added in pieces is as if it had been added at once; and buffers are equal if
their contents are and their greatest lengths have the same room. -/
theorem capacity_highWater (edits : List Edit) :
    (run edits).toList = plain edits ∧ IsRoom (highWater edits) (run edits).capacity ∧
      (run edits).length + 1 ≤ (run edits).capacity ∧
      (∀ more, (run edits).capacity ≤ (run (edits ++ more)).capacity) ∧
      (∀ (pieces : List Addition) (whole : Addition),
        pieces.flatMap Addition.content = whole.content →
          run (edits ++ pieces.map .add) = run (edits ++ [.add whole])) ∧
      ∀ others, run edits = run others ↔ plain edits = plain others ∧
        ∃ room, IsRoom (highWater edits) room ∧ IsRoom (highWater others) room := by
  have hroom := isRoom_run edits
  refine ⟨toList_run edits, hroom, ?_, fun more => ?_, fun pieces whole => run_pieces,
    fun others => run_eq_run_iff⟩
  · have hlt := hroom.1.2
    have hle := length_plain_le edits
    rw [length_run]
    omega
  · exact hroom.mono (isRoom_run (edits ++ more)) (highWater_le_append edits more)

end Buffer
end ClassIndex
