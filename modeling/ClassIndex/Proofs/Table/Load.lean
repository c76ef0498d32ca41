/-
# How full a table is

The row of a table doubles before an insertion that would otherwise leave less than a quarter of
it free. The number of slots is therefore decided by a single number, that of the entries just
before the last insertion: it is the least that has room for one entry more (`run_fitted`). One
doubling is always enough, for an insertion adds one entry at most.

So a quarter of the slots is free at all times, and the search for a key passes over entries only,
each of them once:

| entries | slots | a search ends within |
| ---: | ---: | ---: |
| up to 5 | 8 | 6 steps |
| up to 11 | 16 | 12 steps |
| up to 23 | 32 | 24 steps |
-/

import ClassIndex.Proofs.Loop
import ClassIndex.Proofs.Table.Mapping
import Mathlib.Data.Nat.ModEq
import Mathlib.Order.Bounds.Basic

namespace ClassIndex
namespace Table

/-- A round of the search for a key: a slot that is free or holds the key is the result. -/
def probeRound (slots : Row) (key : String) (i : Nat) : Nat ⊕ Nat :=
  match slots[i]? with
  | some (some e) => if e.key = key then .inr i else .inl ((i + 1) % slots.size)
  | _ => .inr i

/-- The capacities that have room for one entry beside so many. -/
def roomy (n : Nat) : Set Nat := {c | (∃ k, c = 8 * 2 ^ k) ∧ 4 * (n + 2) ≤ 3 * c}

/-- A call goes as far as to make room for an entry. -/
def Call.makesRoom : Call → Bool
  | .insert _ value => ! value.isEmpty
  | _ => false

/-- The number of entries just before the last of a row of calls that makes room for one. -/
def sizeAtInsert? (t : Table) : List Call → Option Nat
  | [] => none
  | call :: calls =>
    (sizeAtInsert? (t.answer call).2 calls).or (if call.makesRoom then some t.size else none)

/-- A capacity is that of a new table, or the least with room for one entry more than there were
at the last insertion. -/
def Fitted (last? : Option Nat) (capacity : Nat) : Prop :=
  match last? with
  | none => capacity = initialCapacity
  | some n => IsLeast (roomy n) capacity

variable {slots : Row} {key : String} {i j m n c : Nat} {t : Table} {map : Mapping}

/-! ## The length of a search -/

theorem probeRound_stop (h : Stops slots key i) : probeRound slots key i = .inr i := by
  unfold probeRound
  split
  · rename_i e he
    rw [if_pos (h e (entryAt_eq_some.2 he))]
  · rfl

theorem probeRound_go (h : ¬ Stops slots key i) :
    probeRound slots key i = .inl ((i + 1) % slots.size) := by
  obtain ⟨e, he, hne⟩ : ∃ e, entryAt slots i = some e ∧ e.key ≠ key := by
    simpa [Stops] using h
  rw [probeRound, entryAt_eq_some.1 he]
  exact if_neg hne

/-- Where the search for a key can stop after so many steps, it has ended. -/
theorem probe_ends (h : Stops slots key (probe slots key n i)) :
    EndsWithin (probeRound slots key) (n + 1) i (probe slots key n i) := by
  unfold EndsWithin
  induction n generalizing i with
  | zero =>
    have hstop : Stops slots key i := h
    rw [loop, probeRound_stop hstop, probe]
  | succ n ih =>
    rw [loop]
    by_cases hstop : Stops slots key i
    · rw [probeRound_stop hstop, probe_stop hstop]
    · rw [probe_go hstop] at h ⊢
      rw [probeRound_go hstop]
      exact ih h

/-- The search for a key passes over no entry twice. -/
theorem Ordered.steps_le (h : Ordered slots) (hj : j < slots.size)
    (hgo : ∀ k < j, ¬ Stops slots key ((i + k) % slots.size)) : j ≤ (stored slots).length := by
  have hpassed : ∀ k < j, ∃ e, entryAt slots ((i + k) % slots.size) = some e := by
    intro k hk
    by_contra hnone
    exact hgo k hk fun e he => absurd ⟨e, he⟩ hnone
  have : Inhabited TableEntry := ⟨⟨key, []⟩⟩
  choose! passed hentry using hpassed
  have hinj : ∀ k ∈ List.range j, ∀ l ∈ List.range j, passed k = passed l → k = l := by
    intro k hk l hl heq
    rw [List.mem_range] at hk hl
    have hslot : (i + k) % slots.size = (i + l) % slots.size := by
      rw [← h _ _ (hentry k hk), ← h _ _ (hentry l hl), heq]
    exact (Nat.ModEq.add_left_cancel' i hslot).eq_of_lt_of_lt (by omega) (by omega)
  have hnodup : ((List.range j).map passed).Nodup := List.Nodup.map_on hinj List.nodup_range
  have hsub : (List.range j).map passed ⊆ stored slots := by
    intro e he
    obtain ⟨k, hk, rfl⟩ := List.mem_map.1 he
    exact mem_stored.2 ⟨_, hentry k (List.mem_range.1 hk)⟩
  simpa using (hnodup.subperm hsub).length_le

/-- **Every search ends within one step more than there are entries.** -/
theorem Ordered.seek_ends (h : Ordered slots) (hroom : (stored slots).length < slots.size)
    (key : String) : EndsWithin (probeRound slots key) ((stored slots).length + 1)
      (home slots.size key) (seek slots key) := by
  obtain ⟨f, hf, hfree⟩ := exists_free hroom
  obtain ⟨j, hj, hseek, hgo, hstop⟩ := exists_seek key hf hfree
  have hprobe : probe slots key (stored slots).length (home slots.size key) = seek slots key := by
    rw [hseek] at hstop ⊢
    exact probe_eq hgo hstop (home_lt (by omega) key) (h.steps_le hj hgo)
  rw [← hprobe] at hstop ⊢
  exact probe_ends hstop

theorem Sound.seek_ends (h : Sound t) (key : String) :
    EndsWithin (probeRound t.slots key) (t.size + 1) (home t.capacity key) (seek t.slots key) := by
  have hload := h.load
  have hends := h.ordered.seek_ends (by rw [← h.count]; omega) key
  rwa [← h.count] at hends

/-! ## The capacity -/

/-- Where there is no more room for one entry more, doubling makes it, and nothing less does. -/
theorem isLeast_roomy (h : IsLeast (roomy m) c) (hm : m ≤ n) (hn : n ≤ m + 1) :
    IsLeast (roomy n) (if 4 * (n + 2) ≤ 3 * c then c else 2 * c) := by
  obtain ⟨⟨⟨k, rfl⟩, hroom⟩, hleast⟩ := h
  have hpos : 1 ≤ 2 ^ k := Nat.one_le_two_pow
  have hdouble : 2 * (8 * 2 ^ k) = 8 * 2 ^ (k + 1) := by rw [Nat.pow_succ]; omega
  split
  · rename_i hfits
    exact ⟨⟨⟨k, rfl⟩, hfits⟩, fun c hc => hleast ⟨hc.1, by have := hc.2; omega⟩⟩
  · rename_i hfull
    refine ⟨⟨⟨k + 1, hdouble⟩, by omega⟩, ?_⟩
    rintro c ⟨⟨l, rfl⟩, hc⟩
    -- a smaller power of two has no more room than the one that is full
    have hlt : k < l := by
      by_contra hle
      have := Nat.pow_le_pow_right (show 0 < 2 by omega) (Nat.le_of_not_lt hle)
      omega
    rw [hdouble]
    exact Nat.mul_le_mul_left 8 (Nat.pow_le_pow_right (by omega) hlt)

/-- The capacity of a table fits the number of entries before the last insertion, which has added
one at most. -/
structure Sized (last? : Option Nat) (t : Table) : Prop where
  capacity : IsLeast (roomy (last?.getD 0)) t.capacity
  least : last?.getD 0 ≤ t.size
  most : t.size ≤ last?.elim 0 (· + 1)

theorem isLeast_initialCapacity : IsLeast (roomy 0) initialCapacity := by
  refine ⟨⟨⟨0, rfl⟩, by decide⟩, ?_⟩
  rintro c ⟨⟨k, rfl⟩, -⟩
  exact Nat.le_mul_of_pos_right 8 (Nat.two_pow_pos k)

theorem Sized.fitted {last? : Option Nat} (h : Sized last? t) : Fitted last? t.capacity := by
  cases last? with
  | none => exact h.capacity.unique isLeast_initialCapacity
  | some n => exact h.capacity

/-- Making room for an entry brings a table to the least capacity that has it. -/
theorem Sized.reserve {last? : Option Nat} (h : Sized last? t) (hs : Sound t) :
    IsLeast (roomy t.size) t.reserve.capacity ∧ t.reserve.count = t.size := by
  have hmost : t.size ≤ last?.getD 0 + 1 := by
    have := h.most
    cases last? with
    | none => exact Nat.le_succ_of_le this
    | some n => exact this
  have hleast := isLeast_roomy h.capacity h.least hmost
  by_cases hfits : 4 * (t.size + 2) ≤ 3 * t.capacity
  · rw [if_pos hfits] at hleast
    rw [show t.reserve = t from if_pos hfits]
    exact ⟨hleast, rfl⟩
  · rw [if_neg hfits] at hleast
    rw [show t.reserve = { t with slots := rehashed t.slots } from if_neg hfits]
    refine ⟨?_, rfl⟩
    rw [Table.capacity, hs.ordered.rehashed.2.2]
    exact hleast

/-- Only an insertion makes room. -/
theorem Call.eq_insert {call : Call} (h : call.makesRoom = true) :
    ∃ key value, call = .insert key value ∧ value.isEmpty = false := by
  cases call with
  | insert key value => exact ⟨key, value, rfl, by simpa [Call.makesRoom] using h⟩
  | _ => cases h

/-- An insertion leaves the row that room was made in, with one entry more at most. -/
theorem insert_size (key : String) {value : List UInt8} (hv : value.isEmpty = false) :
    (t.insert key value).2.capacity = t.reserve.capacity ∧
      t.reserve.count ≤ (t.insert key value).2.size ∧
      (t.insert key value).2.size ≤ t.reserve.count + 1 := by
  cases he : entryAt t.reserve.slots (seek t.reserve.slots key) with
  | some e =>
    simp only [Table.insert, hv, he]
    exact ⟨rfl, Nat.le_refl _, Nat.le_succ _⟩
  | none =>
    simp only [Table.insert, hv, he]
    exact ⟨Array.size_setIfInBounds, Nat.le_succ _, Nat.le_refl _⟩

/-- Only an insertion that makes room changes the capacity or the number of entries. -/
theorem answer_size {call : Call} (h : call.makesRoom = false) :
    (t.answer call).2.capacity = t.capacity ∧ (t.answer call).2.size = t.size := by
  cases call with
  | insert key value =>
    have hv : value.isEmpty = true := by simpa [Call.makesRoom] using h
    simp [answer, Table.insert, hv]
  | replace key value =>
    simp only [answer, Table.replace]
    split
    · exact ⟨rfl, rfl⟩
    · split
      · exact ⟨Array.size_setIfInBounds, rfl⟩
      · exact ⟨rfl, rfl⟩
  | iterate reset =>
    simp only [answer, Table.iterate]
    split <;> exact ⟨rfl, rfl⟩
  | find | get | entrySize | contains => exact ⟨rfl, rfl⟩

/-- **Every call keeps the capacity fitted** to the last insertion. -/
theorem Sized.answer {last? : Option Nat} (h : Sized last? t) (hs : Sound t) (call : Call) :
    Sized ((if call.makesRoom then some t.size else none).or last?) (t.answer call).2 := by
  by_cases hroom : call.makesRoom = true
  · obtain ⟨key, value, rfl, hv⟩ := Call.eq_insert hroom
    obtain ⟨hcapacity, hcount⟩ := h.reserve hs
    obtain ⟨hsize, hleast, hmost⟩ := insert_size (t := t) key hv
    rw [if_pos hroom]
    rw [hcount] at hleast hmost
    exact ⟨by rw [← hsize] at hcapacity; exact hcapacity, hleast, hmost⟩
  · have hno := Bool.eq_false_iff.2 hroom
    obtain ⟨hcapacity, hsize⟩ := answer_size (t := t) hno
    rw [if_neg hroom, Option.none_or]
    exact ⟨hcapacity ▸ h.capacity, hsize ▸ h.least, hsize ▸ h.most⟩

theorem Sized.runs {last? : Option Nat} (h : Sized last? t) (hs : Sound t)
    (hm : Holds t.slots map) (calls : List Call) :
    Sized ((sizeAtInsert? t calls).or last?) (t.run calls).2 ∧ Sound (t.run calls).2 := by
  induction calls generalizing t last? map with
  | nil => exact ⟨h, hs⟩
  | cons call calls ih =>
    obtain ⟨map', -, hs', hm'⟩ := hs.answers hm call
    rw [sizeAtInsert?, Option.or_assoc]
    exact ih (h.answer hs call) hs' hm'

/-- **A table is as large as its last insertion required.** After any calls its capacity is a power
of two from eight on, the least with room for one entry more than there were just before the last
insertion. So a quarter of the slots is free beside one entry more, and every search ends within
one step more than there are entries: in the row as it is, and in the row that the next insertion
would find. -/
theorem run_fitted (calls : List Call) :
    let t := (empty.run calls).2
    Fitted (sizeAtInsert? empty calls) t.capacity ∧ (∃ k, t.capacity = 8 * 2 ^ k) ∧
      4 * (t.size + 1) ≤ 3 * t.capacity ∧ (∃ i < t.capacity, entryAt t.slots i = none) ∧
      ∀ key, EndsWithin (probeRound t.slots key) (t.size + 1) (home t.capacity key)
          (seek t.slots key) ∧
        EndsWithin (probeRound t.reserve.slots key) (t.size + 1) (home t.reserve.capacity key)
          (seek t.reserve.slots key) := by
  intro t
  have hm : Holds Table.empty.slots ∅ := by
    intro key value
    rw [stored_empty, Finmap.lookup_empty]
    simp
  have hempty : Sized none Table.empty := ⟨isLeast_initialCapacity, Nat.le_refl 0, Nat.le_refl 0⟩
  obtain ⟨m, -, hs, hm'⟩ := sound_empty.runs hm calls
  obtain ⟨hsized, -⟩ := hempty.runs sound_empty hm calls
  rw [Option.or_none] at hsized
  obtain ⟨hreserve, -, -⟩ := hs.reserve hm'
  obtain ⟨-, hcount⟩ := hsized.reserve hs
  refine ⟨hsized.fitted, hsized.capacity.1.1, hs.load, hs.exists_free, fun key =>
    ⟨hs.seek_ends key, ?_⟩⟩
  have hends := hreserve.seek_ends key
  rwa [size, hcount] at hends

end Table
end ClassIndex
