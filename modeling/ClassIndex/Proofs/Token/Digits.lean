/-
# Rows of digits and rows of bytes

A numeric escape turns the digits of a number, in base 8, 10 or 16, into its digits in base 256.
Both rows are said here by the number alone, the highest digit first; what the readers compute,
digit by digit and word by word, is the same (`Radix.value_map_byte`, `Buffer.pack_eq_shortest`).

| base | digits | of either case |
| ---: | --- | --- |
| 8 | `0` … `7` | |
| 10 | `0` … `9` | |
| 16 | `0` … `9`, `a` … `f` | yes |
-/

import ClassIndex.Buffer
import ClassIndex.Cursor.Quoted
import ClassIndex.Proofs.Byte
import Mathlib.Data.Nat.Digits.Lemmas

namespace ClassIndex

/-- A digit in a base up to 16, and whether it is a capital if it is a letter. -/
structure Digit (base : Nat) where
  value : Fin base
  capital : Bool

namespace Digit

variable {base : Nat}

/-- The byte of a digit. -/
def byte (d : Digit base) : UInt8 :=
  Byte.of (if d.capital then (Nat.digitChar d.value).toUpper else Nat.digitChar d.value)

/-- The number that a row of digits stands for. -/
def number (ds : List (Digit base)) : Nat := Nat.ofDigits base (ds.reverse.map fun d => d.value)

theorem number_concat (ds : List (Digit base)) (d : Digit base) :
    number (ds ++ [d]) = base * number ds + d.value := by
  rw [number, number, List.reverse_concat, List.map_cons, Nat.ofDigits_cons, Nat.add_comm]

theorem number_lt (ds : List (Digit base)) : number ds < base ^ ds.length := by
  induction ds using List.reverseRecOn with
  | nil => simp [number]
  | append_singleton ds d ih =>
    rw [number_concat, List.length_append, List.length_singleton, Nat.pow_succ, Nat.mul_comm _ base]
    calc base * number ds + d.value < base * number ds + base := by omega
      _ = base * (number ds + 1) := by rw [Nat.mul_succ]
      _ ≤ base * base ^ ds.length := Nat.mul_le_mul_left base ih

end Digit

namespace Radix

/-- A digit is read as one, with its value. -/
theorem digit_spec {r : Radix} (d : Digit r.base) :
    r.isDigit d.byte = true ∧ digitValue d.byte = d.value := by
  obtain ⟨v, capital⟩ := d
  cases r <;> revert v capital <;> decide

/-- What is read as a digit is one. -/
theorem exists_digit {r : Radix} {b : UInt8} (h : r.isDigit b = true) :
    ∃ d : Digit r.base, d.byte = b := by
  -- looked up byte by byte, in all three bases at once
  have hall : ∀ b : UInt8, ∀ r ∈ [Radix.octal, .decimal, .hex], r.isDigit b = true →
      ∃ n < r.base, ∃ capital : Bool,
        Byte.of (if capital then (Nat.digitChar n).toUpper else Nat.digitChar n) = b :=
    Byte.forall_of_fin (by decide +kernel)
  obtain ⟨n, hn, capital, hb⟩ := hall b r (by cases r <;> decide) h
  exact ⟨⟨⟨n, hn⟩, capital⟩, hb⟩

/-- **A row of digits is read as its number.** -/
theorem value_map_byte {r : Radix} (ds : List (Digit r.base)) :
    r.value (ds.map Digit.byte) = Digit.number ds := by
  induction ds using List.reverseRecOn with
  | nil => rfl
  | append_singleton ds d ih =>
    rw [value] at ih ⊢
    rw [List.map_append, List.foldl_append, ih, Digit.number_concat]
    exact congrArg (r.base * Digit.number ds + ·) (digit_spec d).2

end Radix

/-- The bytes of a number, highest first, as few as possible; zero is one zero byte. -/
def shortest (n : Nat) : List UInt8 :=
  if n = 0 then [0] else (Nat.digits 256 n).reverse.map UInt8.ofNat

namespace Buffer

/-- The number that a row of bytes stands for, the highest first. -/
def number (bs : List UInt8) : Nat := Nat.ofDigits 256 (bs.reverse.map UInt8.toNat)

variable {b : UInt8} {bs : List UInt8}

theorem number_cons (b : UInt8) (bs : List UInt8) :
    number (b :: bs) = number bs + 256 ^ bs.length * b.toNat := by
  rw [number, List.reverse_cons, List.map_append, Nat.ofDigits_append, List.length_map,
    List.length_reverse]
  simp [number]

/-- The first byte, if it is not zero, tells how large the number is at least. -/
theorem le_number (hb : b ≠ 0) : 256 ^ bs.length ≤ number (b :: bs) := by
  have hpos : 1 ≤ b.toNat := by
    have : b.toNat ≠ 0 := fun h => hb (UInt8.toNat_inj.1 h)
    omega
  calc 256 ^ bs.length = 256 ^ bs.length * 1 := (Nat.mul_one _).symm
    _ ≤ 256 ^ bs.length * b.toNat := Nat.mul_le_mul_left _ hpos
    _ ≤ number (b :: bs) := by
      rw [number_cons]
      exact Nat.le_add_left _ _

theorem number_pos (hb : b ≠ 0) : 0 < number (b :: bs) :=
  (Nat.pow_pos (by decide)).trans_le (le_number hb)

/-- Leading zeros do not count. -/
theorem number_dropWhile (bs : List UInt8) : number (bs.dropWhile (· == 0)) = number bs := by
  induction bs with
  | nil => rfl
  | cons b bs ih =>
    rw [List.dropWhile_cons]
    split
    · rename_i hb
      obtain rfl : b = 0 := by simpa using hb
      rw [ih, number_cons]
      rfl
    · rfl

theorem number_bigEndian (v : UInt32) : number (bigEndian v) = v.toNat := by
  have hv := v.toNat_lt
  simp only [number, bigEndian, List.reverse_cons, List.reverse_nil, List.nil_append,
    List.cons_append, List.map_cons, List.map_nil, Nat.ofDigits_cons, Nat.ofDigits_nil,
    UInt32.toNat_toUInt8, UInt32.toNat_shiftRight, UInt32.toNat_ofNat, Nat.shiftRight_eq_div_pow,
    Nat.reducePow, Nat.reduceMod]
  omega

/-- A row of bytes that no zero leads is the shortest one of its number. -/
theorem shortest_number (hb : b ≠ 0) : shortest (number (b :: bs)) = b :: bs := by
  have hdigits : Nat.digits 256 (number (b :: bs)) = (b :: bs).reverse.map UInt8.toNat := by
    refine Nat.digits_ofDigits 256 (by decide) _ ?_ ?_
    · intro l hl
      obtain ⟨x, -, rfl⟩ := List.mem_map.1 hl
      exact x.toNat_lt
    · intro _
      rw [List.getLast_map, List.getLast_reverse]
      simpa [← UInt8.toNat_inj] using hb
  rw [shortest, if_neg (number_pos hb).ne', hdigits, ← List.map_reverse, List.reverse_reverse, List.map_map]
  simp [Function.comp_def]

/-- A word is packed without the zeros that lead it, but zero keeps one. -/
theorem pack_cases (v : UInt32) :
    (v = 0 ∧ pack v = [0]) ∨
      ∃ b bs, pack v = b :: bs ∧ b ≠ 0 ∧ b :: bs <:+ bigEndian v ∧ number (b :: bs) = v.toNat := by
  have hnumber := (number_dropWhile (bigEndian v)).trans (number_bigEndian v)
  have hsuffix := List.dropWhile_suffix (l := bigEndian v) (· == 0)
  rw [pack]
  rcases hd : (bigEndian v).dropWhile (· == 0) with _ | ⟨b, bs⟩
  · rw [hd] at hnumber
    exact .inl ⟨UInt32.toNat_inj.1 hnumber.symm, rfl⟩
  · have hb : b ≠ 0 := by
      have := List.head_dropWhile_not (· == 0) (l := bigEndian v) (by simp [hd])
      simpa [hd] using this
    rw [hd] at hnumber hsuffix
    exact .inr ⟨b, bs, rfl, hb, hsuffix, hnumber⟩

/-- **A word is packed as the shortest row of bytes of its number.** -/
theorem pack_eq_shortest (v : UInt32) : pack v = shortest v.toNat := by
  rcases pack_cases v with ⟨rfl, hpack⟩ | ⟨b, bs, hpack, hb, -, hnumber⟩
  · rw [hpack]
    rfl
  · rw [hpack, ← hnumber, shortest_number hb]

/-- The word of a signed number is its residue. -/
theorem toNat_toUInt32_ofInt (n : Int) : (Int32.ofInt n).toUInt32.toNat = (n % 2 ^ 32).toNat := by
  show (BitVec.ofInt 32 n).toNat = _
  rw [BitVec.toNat_ofInt]
  rfl

end Buffer

namespace Radix

/-! ## What a row of digits denotes -/

theorem denoted_hex {ds : List (Digit 16)} (h : ds.length ≤ 8) :
    Radix.hex.denoted false (ds.map Digit.byte) = shortest (Digit.number ds) := by
  have hlt : Digit.number ds < 2 ^ 32 := by
    calc Digit.number ds < 16 ^ ds.length := Digit.number_lt ds
      _ ≤ 16 ^ 8 := Nat.pow_le_pow_right (by decide) h
  have hvalue : Radix.hex.value (ds.map Digit.byte) = Digit.number ds :=
    value_map_byte (r := .hex) ds
  rw [denoted, Buffer.pack_eq_shortest, hvalue, UInt32.toNat_ofNat', Nat.mod_eq_of_lt hlt]

theorem denoted_decimal (negative : Bool) (ds : List (Digit 10)) :
    Radix.decimal.denoted negative (ds.map Digit.byte) =
      shortest ((if negative then -(Digit.number ds : Int) else Digit.number ds) %
        2 ^ 32).toNat := by
  have hvalue : Radix.decimal.value (ds.map Digit.byte) = Digit.number ds :=
    value_map_byte (r := .decimal) ds
  rw [denoted, hvalue, Buffer.pack_eq_shortest, Buffer.toNat_toUInt32_ofInt]

theorem denoted_octal (ds : List (Digit 8)) :
    Radix.octal.denoted false (ds.map Digit.byte) = [UInt8.ofNat (Digit.number ds % 256)] := by
  have hvalue : Radix.octal.value (ds.map Digit.byte) = Digit.number ds :=
    value_map_byte (r := .octal) ds
  rw [denoted, hvalue]
  exact congrArg (fun b => [b]) (UInt8.toNat_inj.1 (by simp))

end Radix
end ClassIndex
