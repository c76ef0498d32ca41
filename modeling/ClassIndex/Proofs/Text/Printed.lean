/-
# Printed characters

A message that consists of printed characters of ASCII stays on one line, whatever a terminal takes
for the end of a line. Such are the fixed words of all messages and what is put between them
escaped or as a number:

| text | its characters |
| --- | --- |
| escaped byte, escaped text | printed ones, others as `\` with a letter or a code point |
| decimal, hexadecimal number | digits and letters |
| name of a kind of token | printed ones |
-/

import ClassIndex.Proofs.Json
import ClassIndex.Proofs.Json.Written
import ClassIndex.Text.Escape

namespace ClassIndex
namespace Text

/-- A character of ASCII that is printed, as a blank at least. -/
def isPrinted (c : Char) : Bool := 0x20 ≤ c.toNat && c.toNat ≤ 0x7e

/-- A text of printed characters. -/
def Printed (s : String) : Prop := s.toList.all isPrinted = true

instance (s : String) : Decidable (Printed s) :=
  inferInstanceAs (Decidable (s.toList.all isPrinted = true))

variable {s s' : String} {c : Char}

theorem printed_iff : Printed s ↔ ∀ c ∈ s.toList, isPrinted c = true := List.all_eq_true

theorem Printed.append (h : Printed s) (h' : Printed s') : Printed (s ++ s') := by
  rw [printed_iff, String.toList_append, List.forall_mem_append]
  exact ⟨printed_iff.1 h, printed_iff.1 h'⟩

theorem Printed.not_mem (h : Printed s) (hc : isPrinted c = false) : c ∉ s.toList := fun hmem => by
  rw [printed_iff.1 h c hmem] at hc
  cases hc

/-- In front of a text, printed characters add no other ones to it. -/
theorem Printed.mem_append (h : Printed s) (hc : isPrinted c = false) :
    c ∈ (s ++ s').toList ↔ c ∈ s'.toList := by
  rw [String.toList_append, List.mem_append, or_iff_right (h.not_mem hc)]

/-- Nor do they behind it. -/
theorem Printed.mem_append_right (h : Printed s') (hc : isPrinted c = false) :
    c ∈ (s ++ s').toList ↔ c ∈ s.toList := by
  rw [String.toList_append, List.mem_append, or_iff_left (h.not_mem hc)]

theorem printed_ofList {cs : List Char} (h : ∀ c ∈ cs, isPrinted c = true) :
    Printed (String.ofList cs) := by
  rwa [printed_iff, String.toList_ofList]

/-- A character of a row of texts is one of what stands between them, or of one of them. -/
theorem mem_intercalate {separator : String} {ss : List String}
    (h : c ∈ (String.intercalate separator ss).toList) :
    c ∈ separator.toList ∨ ∃ s ∈ ss, c ∈ s.toList := by
  induction ss with
  | nil => cases h
  | cons s ss ih =>
    cases ss with
    | nil =>
      rw [String.intercalate_singleton] at h
      exact .inr ⟨s, List.mem_singleton_self s, h⟩
    | cons s' ss =>
      rw [String.intercalate_cons_cons, String.toList_append, String.toList_append,
        List.mem_append, List.mem_append] at h
      rcases h with (h | h) | h
      · exact .inr ⟨s, List.mem_cons_self, h⟩
      · exact .inl h
      · exact (ih h).imp_right fun ⟨s'', hs, hmem⟩ => ⟨s'', List.mem_cons_of_mem s hs, hmem⟩

theorem printed_intercalate {separator : String} {ss : List String} (hs : Printed separator)
    (h : ∀ s ∈ ss, Printed s) : Printed (String.intercalate separator ss) :=
  printed_iff.2 fun c hc => (mem_intercalate hc).elim (printed_iff.1 hs c)
    fun ⟨s, hmem, hc⟩ => printed_iff.1 (h s hmem) c hc

/-! ## Numbers -/

theorem isPrinted_of_isDigit (hc : isDigit c = true) : isPrinted c = true := by
  simp only [isDigit, isPrinted, Bool.and_eq_true, decide_eq_true_eq, Char.le_def,
    UInt32.le_iff_toNat_le] at hc ⊢
  have hzero : '0'.val.toNat = 48 := rfl
  have hnine : '9'.val.toNat = 57 := rfl
  have hnat : c.val.toNat = c.toNat := rfl
  omega

theorem printed_toString (n : Nat) : Printed (toString n) := by
  have hdecimal : (toString n).toList = decimal n := (signed_eq_toString n).symm
  rw [printed_iff, hdecimal]
  exact fun c hc => isPrinted_of_isDigit (isDigit_of_mem_decimal hc)

theorem isPrinted_hexDigit {n : Nat} (h : n < 16) : isPrinted (hexDigit n) = true := by
  decide +revert

theorem isPrinted_upperHexDigit {n : Nat} (h : n < 16) : isPrinted (upperHexDigit n) = true := by
  decide +revert

theorem isPrinted_hexDigits {n : Nat} : ∀ c ∈ hexDigits n, isPrinted c = true := by
  induction n using Nat.strongRecOn with
  | ind n ih =>
    rw [hexDigits]
    split
    · rename_i hn
      exact List.forall_mem_singleton.2 (isPrinted_hexDigit hn)
    · refine List.forall_mem_append.2 ⟨ih (n / 16) (by omega), List.forall_mem_singleton.2 ?_⟩
      exact isPrinted_hexDigit (Nat.mod_lt n (by decide))

theorem isPrinted_upperHexPair (b : UInt8) : ∀ c ∈ upperHexPair b, isPrinted c = true := by
  have hb := b.toNat_lt
  rw [upperHexPair, List.forall_mem_cons, List.forall_mem_singleton]
  exact ⟨isPrinted_upperHexDigit (by omega), isPrinted_upperHexDigit (by omega)⟩

/-! ## Escaped characters -/

theorem isPrinted_escapeChar (c : Char) : ∀ c' ∈ escapeChar c, isPrinted c' = true := by
  unfold escapeChar
  split_ifs with htab hreturn hfeed hquote hprinted
  · exact List.all_eq_true.1 (by decide)
  · exact List.all_eq_true.1 (by decide)
  · exact List.all_eq_true.1 (by decide)
  · have hshown : ['\'', '"', '\\'].all isPrinted = true := by decide
    have hc : c ∈ ['\'', '"', '\\'] := by simpa [or_assoc] using hquote
    exact List.forall_mem_cons.2
      ⟨by decide, List.forall_mem_singleton.2 (List.all_eq_true.1 hshown c hc)⟩
  · exact List.forall_mem_singleton.2 hprinted
  · rw [codePoint]
    exact List.forall_mem_append.2
      ⟨List.forall_mem_append.2 ⟨List.all_eq_true.1 (by decide), isPrinted_hexDigits⟩,
        List.all_eq_true.1 (by decide)⟩

/-- **An escaped text is printed.** -/
theorem printed_escape (s : String) : Printed (escape s) := by
  refine printed_ofList fun c hc => ?_
  obtain ⟨c', -, hc⟩ := List.mem_flatMap.1 hc
  exact isPrinted_escapeChar c' c hc

theorem printed_escapeByte (b : UInt8) : Printed (escapeByte b) :=
  printed_ofList (isPrinted_escapeChar _)

end Text
end ClassIndex
