/-
# A text and its bytes

Reading the UTF-8 form of a text gives the text back, whether undecodable parts are replaced
(`lossy_utf8`) or refused (`strict?_utf8`). A byte below `80` stands for the character of its
number and occurs in the form of no other, so a text may be cut at such a character in either
form (`takeWhile_utf8`).
-/

import ClassIndex.Text.Utf8

namespace ClassIndex
namespace Text

/-- The bytes of a text are those of its characters. -/
theorem utf8_eq_flatMap (s : String) : utf8 s = s.toList.flatMap String.utf8EncodeChar := by
  have h : s.toUTF8 = s.toList.utf8Encode := by
    rw [← String.toByteArray_ofList, String.ofList_toList]
    rfl
  rw [utf8, h, List.utf8Encode]
  simp

theorem utf8_append (s t : String) : utf8 (s ++ t) = utf8 s ++ utf8 t := by
  simp only [utf8_eq_flatMap, String.toList_append, List.flatMap_append]

/-- **Strict reading takes the bytes of every text** and gives the text back. -/
theorem strict?_utf8 (s : String) : strict? (utf8 s) = some s := by
  have h : (⟨(utf8 s).toArray⟩ : ByteArray) = s.toByteArray := rfl
  rw [strict?, h, String.fromUTF8?, dif_pos s.isValidUTF8]
  rfl

/-! ## One character -/

section

variable {a b c d : UInt8}

theorem seconds_of (hb : 0x80 ≤ b.toNat) (hb' : b.toNat ≤ 0xbf)
    (h₁ : a.toNat = 0xe0 → 0xa0 ≤ b.toNat) (h₂ : a.toNat = 0xed → b.toNat ≤ 0x9f)
    (h₃ : a.toNat = 0xf0 → 0x90 ≤ b.toNat) (h₄ : a.toNat = 0xf4 → b.toNat ≤ 0x8f) :
    seconds a b = true := by
  simp only [seconds, secondRange, beq_iff_eq, ← UInt8.toNat_inj, Bool.and_eq_true,
    decide_eq_true_eq, UInt8.le_iff_toNat_le]
  repeat' split
  all_goals simp_all

theorem continues_of (hb : 0x80 ≤ b.toNat) (hb' : b.toNat ≤ 0xbf) : continues b = true := by
  simp [continues, UInt8.le_iff_toNat_le, hb, hb']

theorem decodeHead_one (ha : a.toNat < 0x80) (s : List UInt8) :
    decodeHead a s = (some (Char.ofNat a.toNat), s) := by
  simp [decodeHead, UInt8.lt_iff_toNat_lt, ha]

theorem decodeHead_two (ha : 0xc2 ≤ a.toNat) (ha' : a.toNat < 0xe0) (hb : seconds a b = true)
    (s : List UInt8) :
    decodeHead a (b :: s) = (some (Char.ofNat (a.toNat % 32 * 64 + low b)), s) := by
  have h₁ : ¬ a.toNat < 128 := by omega
  have h₂ : ¬ a.toNat < 194 := by omega
  have h₃ : ¬ 244 < a.toNat := by omega
  simp [decodeHead, UInt8.lt_iff_toNat_lt, hb, ha', h₁, h₂, h₃]

theorem decodeHead_three (ha : 0xe0 ≤ a.toNat) (ha' : a.toNat < 0xf0) (hb : seconds a b = true)
    (hc : continues c = true) (s : List UInt8) :
    decodeHead a (b :: c :: s) =
      (some (Char.ofNat ((a.toNat % 16 * 64 + low b) * 64 + low c)), s) := by
  have h₁ : ¬ a.toNat < 128 := by omega
  have h₂ : ¬ a.toNat < 194 := by omega
  have h₃ : ¬ 244 < a.toNat := by omega
  have h₄ : ¬ a.toNat < 224 := by omega
  simp [decodeHead, UInt8.lt_iff_toNat_lt, hb, hc, ha', h₁, h₂, h₃, h₄]

theorem decodeHead_four (ha : 0xf0 ≤ a.toNat) (ha' : a.toNat < 0xf5) (hb : seconds a b = true)
    (hc : continues c = true) (hd : continues d = true) (s : List UInt8) :
    decodeHead a (b :: c :: d :: s) =
      (some (Char.ofNat (((a.toNat % 8 * 64 + low b) * 64 + low c) * 64 + low d)), s) := by
  have h₁ : ¬ a.toNat < 128 := by omega
  have h₂ : ¬ a.toNat < 194 := by omega
  have h₃ : ¬ 244 < a.toNat := by omega
  have h₄ : ¬ a.toNat < 224 := by omega
  have h₅ : ¬ a.toNat < 240 := by omega
  simp [decodeHead, UInt8.lt_iff_toNat_lt, hb, hc, hd, h₁, h₂, h₃, h₄, h₅]

theorem decode_cons (a : UInt8) (s : List UInt8) :
    decode (a :: s) = (decodeHead a s).1.getD replacement :: decode (decodeHead a s).2 := by
  rw [decode]

end

/-- The first byte of a character carries its highest bits, above a mark of its length. -/
theorem toNat_marked {n mark : Nat} (h : n + mark < 256) :
    (UInt8.ofNat (n + mark)).toNat = n + mark :=
  UInt8.toNat_ofNat_of_lt' h

/-- **A character at the head of the bytes is read as it was written.** -/
theorem decode_encodeChar (c : Char) (rest : List UInt8) :
    decode (String.utf8EncodeChar c ++ rest) = c :: decode rest := by
  have hvalid : c.val.toNat < 0xd800 ∨ 0xdfff < c.val.toNat ∧ c.val.toNat < 0x110000 := c.valid
  have hc : Char.ofNat c.val.toNat = c := Char.ofNat_toNat c
  rw [String.utf8EncodeChar.eq_1]
  generalize c.val.toNat = n at hc hvalid
  split
  · have h₁ : (UInt8.ofNat n).toNat = n := UInt8.toNat_ofNat_of_lt' (by show n < 256; omega)
    rw [List.singleton_append, decode_cons, decodeHead_one (by omega), h₁, hc]
    rfl
  split
  · have h₁ : (UInt8.ofNat (n / 64 % 32 + 192)).toNat = n / 64 % 32 + 192 :=
      toNat_marked (by omega)
    have h₂ : (UInt8.ofNat (n % 64 + 128)).toNat = n % 64 + 128 := toNat_marked (by omega)
    have hs : seconds (UInt8.ofNat (n / 64 % 32 + 192)) (UInt8.ofNat (n % 64 + 128)) = true :=
      seconds_of (by omega) (by omega) (by omega) (by omega) (by omega) (by omega)
    have hn : (n / 64 % 32 + 192) % 32 * 64 + (n % 64 + 128) % 64 = n := by omega
    rw [List.cons_append, List.cons_append, decode_cons,
      decodeHead_two (by omega) (by omega) hs, h₁, low, h₂, hn, hc]
    rfl
  split
  · have h₁ : (UInt8.ofNat (n / 4096 % 16 + 224)).toNat = n / 4096 % 16 + 224 :=
      toNat_marked (by omega)
    have h₂ : (UInt8.ofNat (n / 64 % 64 + 128)).toNat = n / 64 % 64 + 128 :=
      toNat_marked (by omega)
    have h₃ : (UInt8.ofNat (n % 64 + 128)).toNat = n % 64 + 128 := toNat_marked (by omega)
    have hs : seconds (UInt8.ofNat (n / 4096 % 16 + 224)) (UInt8.ofNat (n / 64 % 64 + 128)) =
        true :=
      seconds_of (by omega) (by omega) (by omega) (by omega) (by omega) (by omega)
    have hn : ((n / 4096 % 16 + 224) % 16 * 64 + (n / 64 % 64 + 128) % 64) * 64
        + (n % 64 + 128) % 64 = n := by omega
    rw [List.cons_append, List.cons_append, List.cons_append, decode_cons,
      decodeHead_three (by omega) (by omega) hs (continues_of (by omega) (by omega)), h₁, low, low,
      h₂, h₃, hn, hc]
    rfl
  · have h₁ : (UInt8.ofNat (n / 262144 % 8 + 240)).toNat = n / 262144 % 8 + 240 :=
      toNat_marked (by omega)
    have h₂ : (UInt8.ofNat (n / 4096 % 64 + 128)).toNat = n / 4096 % 64 + 128 :=
      toNat_marked (by omega)
    have h₃ : (UInt8.ofNat (n / 64 % 64 + 128)).toNat = n / 64 % 64 + 128 :=
      toNat_marked (by omega)
    have h₄ : (UInt8.ofNat (n % 64 + 128)).toNat = n % 64 + 128 := toNat_marked (by omega)
    have hs : seconds (UInt8.ofNat (n / 262144 % 8 + 240)) (UInt8.ofNat (n / 4096 % 64 + 128)) =
        true :=
      seconds_of (by omega) (by omega) (by omega) (by omega) (by omega) (by omega)
    have hn : (((n / 262144 % 8 + 240) % 8 * 64 + (n / 4096 % 64 + 128) % 64) * 64
        + (n / 64 % 64 + 128) % 64) * 64 + (n % 64 + 128) % 64 = n := by omega
    rw [List.cons_append, List.cons_append, List.cons_append, List.cons_append, decode_cons,
      decodeHead_four (by omega) (by omega) hs (continues_of (by omega) (by omega))
        (continues_of (by omega) (by omega)), h₁, low, low, low, h₂, h₃, h₄, hn, hc]
    rfl

/-- **The bytes of a text are shown as the text.** -/
theorem lossy_utf8 (s : String) : lossy (utf8 s) = s := by
  have h : ∀ cs : List Char, decode (cs.flatMap String.utf8EncodeChar) = cs := by
    intro cs
    induction cs with
    | nil => rw [List.flatMap_nil, decode]
    | cons c cs ih => rw [List.flatMap_cons, decode_encodeChar, ih]
  rw [lossy, utf8_eq_flatMap, h, String.ofList_toList]

/-! ## Cutting at a character below `80` -/

/-- A byte below `80` is the whole of the character it occurs in. -/
theorem eq_of_mem_encodeChar {c : Char} {b : UInt8} (h : b ∈ String.utf8EncodeChar c)
    (hb : b.toNat < 0x80) : c.toNat = b.toNat := by
  rw [String.utf8EncodeChar.eq_1] at h
  have hc : c.toNat = c.val.toNat := rfl
  rw [hc]
  generalize c.val.toNat = n at h
  split at h
  · obtain rfl : b = UInt8.ofNat n := by simpa using h
    exact (UInt8.toNat_ofNat_of_lt' (by show n < 256; omega)).symm
  · -- every byte of a longer form has its highest bit set
    have hmark : ∀ m mark : Nat, 128 ≤ mark → m + mark < 256 → b ≠ UInt8.ofNat (m + mark) := by
      rintro m mark hmark hlt rfl
      rw [toNat_marked hlt] at hb
      omega
    repeat' split at h
    all_goals simp only [List.mem_cons, List.not_mem_nil, or_false] at h
    · rcases h with h | h <;> exact absurd h (hmark _ _ (by omega) (by omega))
    · rcases h with h | h | h <;> exact absurd h (hmark _ _ (by omega) (by omega))
    · rcases h with h | h | h | h <;> exact absurd h (hmark _ _ (by omega) (by omega))

theorem encodeChar_of_lt {c : Char} (h : c.toNat < 0x80) :
    String.utf8EncodeChar c = [UInt8.ofNat c.toNat] := by
  have hc : c.val.toNat ≤ 127 := Nat.le_of_lt_succ h
  rw [String.utf8EncodeChar.eq_1, if_pos hc]
  rfl

/-- **A text may be cut at a character below `80`,** before or after it is turned to bytes. -/
theorem takeWhile_utf8 {m : Char} (hm : m.toNat < 0x80) (cs : List Char) :
    (cs.flatMap String.utf8EncodeChar).takeWhile (· != UInt8.ofNat m.toNat) =
      (cs.takeWhile (· != m)).flatMap String.utf8EncodeChar := by
  have hbyte : (UInt8.ofNat m.toNat).toNat = m.toNat :=
    UInt8.toNat_ofNat_of_lt' (by show m.toNat < 256; omega)
  induction cs with
  | nil => rfl
  | cons c cs ih =>
    by_cases hc : c = m
    · subst hc
      rw [List.flatMap_cons, encodeChar_of_lt hm, List.takeWhile_cons_of_neg (by simp)]
      rw [List.singleton_append, List.takeWhile_cons_of_neg (by simp), List.flatMap_nil]
    · have hall : ∀ b ∈ String.utf8EncodeChar c, (b != UInt8.ofNat m.toNat) = true := by
        intro b hb
        rw [bne_iff_ne]
        rintro rfl
        have := eq_of_mem_encodeChar hb (by omega)
        exact hc (Char.toNat_inj.1 (by omega))
      rw [List.flatMap_cons, List.takeWhile_append_of_pos hall, ih,
        List.takeWhile_cons_of_pos (by simpa using hc), List.flatMap_cons]

/-- **A character below `80` occurs as often as its byte,** before or after a text is turned to
bytes. -/
theorem count_utf8 {m : Char} (hm : m.toNat < 0x80) (s : String) :
    (utf8 s).count (UInt8.ofNat m.toNat) = s.toList.count m := by
  have hbyte : (UInt8.ofNat m.toNat).toNat = m.toNat :=
    UInt8.toNat_ofNat_of_lt' (by show m.toNat < 256; omega)
  rw [utf8_eq_flatMap]
  induction s.toList with
  | nil => rfl
  | cons c cs ih =>
    rw [List.flatMap_cons, List.count_append, ih, List.count_cons]
    by_cases hc : c = m
    · subst hc
      rw [encodeChar_of_lt hm, List.count_singleton_self, if_pos (beq_self_eq_true c), Nat.add_comm]
    · have hnone : UInt8.ofNat m.toNat ∉ String.utf8EncodeChar c := fun hmem =>
        hc (Char.toNat_inj.1 ((eq_of_mem_encodeChar hmem (by omega)).trans hbyte))
      rw [List.count_eq_zero_of_not_mem hnone, if_neg (by simpa using hc), Nat.zero_add,
        Nat.add_zero]

end Text
end ClassIndex
