/-
# The order of texts is that of their bytes

Texts are compared character by character, and UTF-8 is made so that this is how their bytes
compare (`utf8_lt_utf8`): a longer form begins with a greater byte, and forms of one length have
their bits in order.
-/

import ClassIndex.Proofs.Text.Utf8

namespace ClassIndex
namespace Text

variable {s t : String} {c d : Char}

/-- **The lesser character has the lesser bytes,** whatever comes behind them. -/
theorem encodeChar_lt_encodeChar (h : c < d) (rest rest' : List UInt8) :
    String.utf8EncodeChar c ++ rest < String.utf8EncodeChar d ++ rest' := by
  have hlt : c.val.toNat < d.val.toNat := h
  have hvalid : d.val.toNat < 0xd800 ∨ 0xdfff < d.val.toNat ∧ d.val.toNat < 0x110000 := d.valid
  rw [String.utf8EncodeChar.eq_1, String.utf8EncodeChar.eq_1]
  generalize c.val.toNat = n at hlt
  generalize d.val.toNat = m at hlt hvalid
  repeat' split
  -- a greater character has no shorter form
  all_goals try omega
  all_goals
    simp (disch := omega) only [List.cons_append, List.nil_append, List.cons_lt_cons_iff,
      UInt8.lt_iff_toNat_lt, ← UInt8.toNat_inj, UInt8.toNat_ofNat', Nat.mod_eq_of_lt]
    omega

theorem flatMap_encodeChar_lt {cs ds : List Char} (h : cs < ds) :
    cs.flatMap String.utf8EncodeChar < ds.flatMap String.utf8EncodeChar := by
  induction h with
  | @nil d ds =>
    obtain ⟨b, rest, hb⟩ := List.exists_cons_of_ne_nil (String.utf8EncodeChar_ne_nil (c := d))
    rw [List.flatMap_nil, List.flatMap_cons, hb]
    exact List.nil_lt_cons b _
  | rel h => exact encodeChar_lt_encodeChar h _ _
  | cons _ ih => exact List.append_left_lt ih

/-- **The lesser text has the lesser bytes.** -/
theorem utf8_lt_utf8 (h : s < t) : utf8 s < utf8 t := by
  rw [utf8_eq_flatMap, utf8_eq_flatMap]
  exact flatMap_encodeChar_lt (String.lt_iff.1 h)

end Text
end ClassIndex
