/-
# What one byte does to a hash

The hash of a byte string is a word of 32 bits that takes up the bytes one by one: exclusive or
with the byte, then a multiplication by an odd number. Both can be undone, and on the lowest bits
of the word alone, for no bit is moved down. So a step tells apart what it is given
(`hashStep_modEq_iff`), and all the steps of the bytes that follow do so as well
(`foldl_hashStep_modEq_iff`). Where two byte strings differ in one byte, their hashes therefore
agree in as many of the lowest bits as these two bytes do (`fnv1a_modEq_iff`), and the hashes as a
whole are never the same.

A row of `2 ^ k` slots looks at the lowest `k` bits only (`home_eq_iff`):

| slots | two keys that differ in one byte begin at one slot if the bytes |
| ---: | --- |
| 8 | agree in the last 3 bits, as `a` and `i` |
| 32 | agree in the last 5 bits, as `A` and `a` |
| 128 | agree in the last 7 bits, as no two of ASCII do |
| 256 | are the same |
-/

import ClassIndex.Table
import Mathlib.Data.Nat.Bitwise
import Mathlib.Data.Nat.ModEq

namespace ClassIndex

variable {k : Nat} {h h' : UInt32} {a b : UInt8}

/-- A step of the hash. -/
def hashStep (h : UInt32) (b : UInt8) : UInt32 := (h ^^^ b.toUInt32) * 16777619

theorem fnv1a_eq_foldl (bytes : List UInt8) : fnv1a bytes = bytes.foldl hashStep 2166136261 := rfl

/-! ## The lowest bits of a step -/

/-- Exclusive or can be undone on the lowest bits. -/
theorem xor_modEq_iff {m n : Nat} (c : Nat) :
    m ^^^ c ≡ n ^^^ c [MOD 2 ^ k] ↔ m ≡ n [MOD 2 ^ k] := by
  unfold Nat.ModEq
  rw [Nat.xor_mod_two_pow, Nat.xor_mod_two_pow, Nat.xor_left_inj]

theorem toNat_hashStep_modEq (hk : k ≤ 32) (h : UInt32) (b : UInt8) :
    (hashStep h b).toNat ≡ (h.toNat ^^^ b.toNat) * 16777619 [MOD 2 ^ k] := by
  have hword : (hashStep h b).toNat = (h.toNat ^^^ b.toNat) * 16777619 % 2 ^ 32 := by
    rw [hashStep, UInt32.toNat_mul, UInt32.toNat_xor, UInt8.toNat_toUInt32]
    rfl
  rw [hword]
  exact (Nat.mod_modEq _ _).of_dvd (Nat.pow_dvd_pow 2 hk)

/-- **A step tells apart what it is given,** bit by bit from the lowest: the factor is odd. -/
theorem hashStep_modEq_iff (hk : k ≤ 32) :
    (hashStep h a).toNat ≡ (hashStep h' b).toNat [MOD 2 ^ k] ↔
      h.toNat ^^^ a.toNat ≡ h'.toNat ^^^ b.toNat [MOD 2 ^ k] := by
  have hodd : Nat.Coprime (2 ^ k) 16777619 := Nat.Coprime.pow_left k (by decide)
  have ha := toNat_hashStep_modEq hk h a
  have hb := toNat_hashStep_modEq hk h' b
  constructor
  · intro hstep
    exact Nat.ModEq.cancel_right_of_coprime hodd ((ha.symm.trans hstep).trans hb)
  · intro hxor
    exact (ha.trans (hxor.mul_right _)).trans hb.symm

/-- **The same bytes taken up after two words keep them apart.** -/
theorem foldl_hashStep_modEq_iff (hk : k ≤ 32) (bytes : List UInt8) :
    (bytes.foldl hashStep h).toNat ≡ (bytes.foldl hashStep h').toNat [MOD 2 ^ k] ↔
      h.toNat ≡ h'.toNat [MOD 2 ^ k] := by
  induction bytes generalizing h h' with
  | nil => exact Iff.rfl
  | cons c bytes ih =>
    rw [List.foldl_cons, List.foldl_cons, ih, hashStep_modEq_iff hk, xor_modEq_iff]

/-! ## One byte of a byte string -/

/-- Bytes that agree in eight bits are the same. -/
theorem eq_of_toNat_modEq (hk : 8 ≤ k) (hab : a.toNat ≡ b.toNat [MOD 2 ^ k]) : a = b := by
  have hlt : ∀ c : UInt8, c.toNat < 2 ^ k := fun c =>
    Nat.lt_of_lt_of_le c.toNat_lt (Nat.pow_le_pow_right (by decide) hk)
  exact UInt8.toNat_inj.1 (hab.eq_of_lt_of_lt (hlt a) (hlt b))

/-- Within the word, two hashes agree in their lowest bits just if the two bytes do. -/
theorem fnv1a_modEq_iff_of_le (hk : k ≤ 32) (p q : List UInt8) (a b : UInt8) :
    (fnv1a (p ++ [a] ++ q)).toNat ≡ (fnv1a (p ++ [b] ++ q)).toNat [MOD 2 ^ k] ↔
      a.toNat ≡ b.toNat [MOD 2 ^ k] := by
  simp only [fnv1a_eq_foldl, List.foldl_append, List.foldl_cons, List.foldl_nil]
  -- both words before the byte are the same, so only the byte is left to undo
  rw [foldl_hashStep_modEq_iff hk, hashStep_modEq_iff hk, Nat.xor_comm _ a.toNat,
    Nat.xor_comm _ b.toNat, xor_modEq_iff]

/-- **Hashes of byte strings that differ in one byte agree in as many of the lowest bits as the two
bytes do.** -/
theorem fnv1a_modEq_iff (k : Nat) (p q : List UInt8) (a b : UInt8) :
    (fnv1a (p ++ [a] ++ q)).toNat ≡ (fnv1a (p ++ [b] ++ q)).toNat [MOD 2 ^ k] ↔
      a.toNat ≡ b.toNat [MOD 2 ^ k] := by
  rcases Nat.le_total k 8 with hk | hk
  · exact fnv1a_modEq_iff_of_le (Nat.le_trans hk (by decide)) p q a b
  · -- from eight bits on both sides say that the bytes are the same
    constructor
    · intro hhash
      have hlow := (fnv1a_modEq_iff_of_le (by decide) p q a b).1
        (hhash.of_dvd (Nat.pow_dvd_pow 2 hk))
      rw [eq_of_toNat_modEq (Nat.le_refl 8) hlow]
    · intro hab
      rw [eq_of_toNat_modEq hk hab]

/-- **Byte strings that differ in one byte never share a hash,** whatever stands before the byte
and behind it. -/
theorem fnv1a_ne_of_one_byte (p q : List UInt8) (hab : a ≠ b) :
    fnv1a (p ++ [a] ++ q) ≠ fnv1a (p ++ [b] ++ q) := by
  intro heq
  have hhash : (fnv1a (p ++ [a] ++ q)).toNat ≡ (fnv1a (p ++ [b] ++ q)).toNat [MOD 2 ^ 8] := by
    rw [heq]
  exact hab (eq_of_toNat_modEq (Nat.le_refl 8) ((fnv1a_modEq_iff 8 p q a b).1 hhash))

/-- `$A1` and `$a1` have different hashes, though a row of 32 slots does not see it. -/
theorem fnv1a_ne_of_letter_case : (0x41 : UInt8) ≠ 0x61 ∧
    fnv1a ([0x24] ++ [0x41] ++ [0x31]) ≠ fnv1a ([0x24] ++ [0x61] ++ [0x31]) :=
  ⟨by decide, fnv1a_ne_of_one_byte [0x24] [0x31] (by decide)⟩

namespace Table

/-- **Where the searches for two keys begin** that differ in one byte: at one slot of `2 ^ k` just
if the bytes agree in the lowest `k` bits, so at two slots from 256 slots on. -/
theorem home_eq_iff (k : Nat) {p q : List UInt8} {key key' : String}
    (hkey : Text.utf8 key = p ++ [a] ++ q) (hkey' : Text.utf8 key' = p ++ [b] ++ q) :
    home (2 ^ k) key = home (2 ^ k) key' ↔ a.toNat ≡ b.toNat [MOD 2 ^ k] := by
  unfold home
  rw [hkey, hkey']
  exact fnv1a_modEq_iff k p q a b

end Table
end ClassIndex
