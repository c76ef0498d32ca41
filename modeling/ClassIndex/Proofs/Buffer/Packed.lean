/-
# Packed numbers

A number of 32 bits is added to a buffer as the row of its bytes, the highest first, negative
numbers in two's complement. No zero leads the row but that of the number zero. So no shorter row
stands for the number, and the row tells the number (`appendPacked_minimal`):

| number | bytes |
| ---: | --- |
| 0 | `00` |
| 65 | `41` |
| 65536 | `01 00 00` |
| −1 | `ff ff ff ff` |
| −2³¹ | `80 00 00 00` |
-/

import ClassIndex.Proofs.Token.Digits

namespace ClassIndex
namespace Buffer

variable {b : UInt8} {bs other : List UInt8}

/-! ## The number of a row of bytes -/

theorem number_lt (bs : List UInt8) : number bs < 256 ^ bs.length := by
  have h := Nat.ofDigits_lt_base_pow_length (b := 256) (l := bs.reverse.map UInt8.toNat)
    (by decide) (by
      intro n hn
      obtain ⟨x, -, rfl⟩ := List.mem_map.1 hn
      exact x.toNat_lt)
  rwa [List.length_map, List.length_reverse] at h

/-- **No row of bytes is shorter** than one of the same number that no zero leads. -/
theorem length_le_of_number_eq (hb : b ≠ 0) (h : number other = number (b :: bs)) :
    (b :: bs).length ≤ other.length := by
  have hlt : 256 ^ bs.length < 256 ^ other.length := by
    calc 256 ^ bs.length ≤ number (b :: bs) := le_number hb
      _ = number other := h.symm
      _ < 256 ^ other.length := number_lt other
  exact (Nat.pow_lt_pow_iff_right (by decide)).1 hlt

/-! ## Packed words -/

theorem number_pack (v : UInt32) : number (pack v) = v.toNat := by
  rcases pack_cases v with ⟨rfl, hpack⟩ | ⟨b, bs, hpack, -, -, hnumber⟩
  · rw [hpack]
    rfl
  · rw [hpack, hnumber]

theorem toNat_toUInt32 (v : Int32) : (v.toUInt32.toNat : Int) = v.toInt % 2 ^ 32 := by
  have hword := toNat_toUInt32_ofInt v.toInt
  rw [Int32.ofInt_toInt] at hword
  rw [hword, Int.toNat_of_nonneg (Int.emod_nonneg _ (by decide))]

theorem toUInt32_injective : Function.Injective Int32.toUInt32 := by
  intro v w h
  exact Int32.toBitVec_inj.1 (congrArg UInt32.toBitVec h)

/-- **A signed number is added as the shortest row of bytes of its residue.** -/
theorem toList_appendPacked (buffer : Buffer) (v : Int32) :
    (buffer.appendPacked v).toList = buffer.toList ++ shortest (v.toInt % 2 ^ 32).toNat := by
  rw [appendPacked, toList_append, pack_eq_shortest, ← toNat_toUInt32, Int.toNat_natCast]

/-- **Packed numbers are minimal and lossless.** The contents stay, and behind them come one to
four bytes that stand for the number modulo 2³². No zero leads them unless the number is zero, which
is added as one zero byte. No other row of bytes for the number is shorter, and whatever number is
added as these bytes to any buffer is this number. -/
theorem appendPacked_minimal (buffer : Buffer) (v : Int32) :
    ∃ bytes, (buffer.appendPacked v).toList = buffer.toList ++ bytes ∧
      1 ≤ bytes.length ∧ bytes.length ≤ 4 ∧ (number bytes : Int) = v.toInt % 2 ^ 32 ∧
      (v ≠ 0 → bytes.head? ≠ some 0) ∧ (v = 0 → bytes = [0]) ∧
      (∀ other, other ≠ [] → number other = number bytes → bytes.length ≤ other.length) ∧
      ∀ (start : Buffer) (w : Int32),
        (start.appendPacked w).toList = start.toList ++ bytes → w = v := by
  have hlossless : ∀ (start : Buffer) (w : Int32),
      (start.appendPacked w).toList = start.toList ++ pack v.toUInt32 → w = v := by
    intro start w h
    rw [appendPacked, toList_append] at h
    have hnumber := congrArg number (List.append_cancel_left h)
    rw [number_pack, number_pack] at hnumber
    exact toUInt32_injective (UInt32.toNat_inj.1 hnumber)
  have hvalue : (number (pack v.toUInt32) : Int) = v.toInt % 2 ^ 32 := by
    rw [number_pack, toNat_toUInt32]
  refine ⟨pack v.toUInt32, toList_append buffer _, ?_⟩
  rcases pack_cases v.toUInt32 with ⟨hzero, hpack⟩ | ⟨b, bs, hpack, hb, hsuffix, hnumber⟩
  · have hv : v = 0 := toUInt32_injective hzero
    rw [hpack] at hvalue hlossless ⊢
    refine ⟨Nat.le_refl 1, by decide, hvalue, absurd hv, fun _ => rfl, ?_, hlossless⟩
    exact fun other hother _ => List.length_pos_iff.2 hother
  · have hv : v ≠ 0 := by
      rintro rfl
      have hpos : 0 < number (b :: bs) := number_pos hb
      rw [hnumber] at hpos
      exact Nat.lt_irrefl 0 hpos
    rw [hpack] at hvalue hlossless ⊢
    refine ⟨Nat.succ_pos _, hsuffix.length_le, hvalue, fun _ => ?_, fun h => absurd h hv, ?_,
      hlossless⟩
    · simpa using hb
    · exact fun other _ hother => length_le_of_number_eq hb hother

end Buffer
end ClassIndex
