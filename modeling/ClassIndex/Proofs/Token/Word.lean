/-
# Which words are reserved

The reserved words stand in strictly increasing order of their bytes (`reserved_increasing`). So the
search by halving finds a reserved word wherever it stands (`searchWord_of_place`), and whatever
it finds is the word that was looked for (`mem_of_searchWord`). It comes to what a search of one
word after the other comes to (`searchWord_eq_firstWord`):

| word | is |
| --- | --- |
| in the table | of the kind that stands beside it |
| before, between or behind the words of the table | a name |
-/

import Mathlib.Data.List.Chain
import Mathlib.Order.Compare
import ClassIndex.Token.Word

namespace ClassIndex
namespace Token

/-! ## The order of words -/

theorem compareBytes_eq (s t : List UInt8) : compareBytes s t = compare s t := by
  fun_induction compareBytes s t with
  | case1 | case2 | case3 => rfl
  | case4 a s b t hab =>
    have hlt : compare a b = .lt := compareOfLessAndEq_eq_lt.2 hab
    rw [List.compare_cons_cons, hlt]
    rfl
  | case5 a s b t hab hba =>
    have hgt : compare a b = .gt := Std.OrientedCmp.gt_iff_lt.2 (compareOfLessAndEq_eq_lt.2 hba)
    rw [List.compare_cons_cons, hgt]
    rfl
  | case6 a s b t hab hba ih =>
    obtain rfl := UInt8.le_antisymm (UInt8.not_lt.1 hba) (UInt8.not_lt.1 hab)
    have heq : compare a a = .eq := Std.ReflCmp.compare_self
    rw [List.compare_cons_cons, heq, ih]
    rfl

instance : Std.TransCmp compareBytes := by
  rw [funext₂ compareBytes_eq]
  infer_instance

instance : Trans (compareBytes · · = .lt) (compareBytes · · = .lt) (compareBytes · · = .lt) :=
  ⟨Std.TransCmp.lt_trans⟩

/-- The order of byte strings tells different byte strings apart. -/
theorem eq_of_compareBytes {s t : List UInt8} (h : compareBytes s t = .eq) : s = t := by
  rw [compareBytes_eq] at h
  exact Std.LawfulEqCmp.eq_of_compare h

/-- **Each reserved word comes before the next.** -/
theorem reserved_increasing :
    (reserved.toList.map fun p => Text.utf8 p.1).IsChain (compareBytes · · = .lt) := by
  decide +kernel

/-- Reserved words compare as their places do. -/
theorem compareBytes_reserved {i j : Nat} {p q : String × Kind} (hp : reserved[i]? = some p)
    (hq : reserved[j]? = some q) :
    compareBytes (Text.utf8 p.1) (Text.utf8 q.1) = compare i j := by
  have hpairs := List.pairwise_map.1 (List.isChain_iff_pairwise.1 reserved_increasing)
  obtain ⟨hi, rfl⟩ := Array.getElem?_eq_some_iff.1 hp
  obtain ⟨hj, rfl⟩ := Array.getElem?_eq_some_iff.1 hq
  rcases Nat.lt_trichotomy i j with hlt | rfl | hgt
  · rw [Nat.compare_eq_lt.2 hlt]
    exact List.pairwise_iff_getElem.1 hpairs i j hi hj hlt
  · rw [Nat.compare_eq_eq.2 rfl]
    exact Std.ReflCmp.compare_self
  · rw [Nat.compare_eq_gt.2 hgt]
    exact Std.OrientedCmp.gt_iff_lt.2 (List.pairwise_iff_getElem.1 hpairs j i hj hi hgt)

/-! ## The search -/

/-- A kind is found only under a reserved word that stands for it. -/
theorem mem_of_searchWord {word : List UInt8} {lo hi : Nat} {k : Kind}
    (h : searchWord word lo hi = some k) : ∃ w, (w, k) ∈ reserved ∧ Text.utf8 w = word := by
  fun_induction searchWord word lo hi with
  | case1 lo hi _ w k' hm hc =>
    obtain rfl := Option.some.inj h
    exact ⟨w, Array.mem_of_getElem? hm, eq_of_compareBytes hc⟩
  | case2 lo hi _ w k' hm hc ih => exact ih h
  | case3 lo hi _ w k' hm hc ih => exact ih h
  | case4 => cases h
  | case5 => cases h

/-- **A reserved word is found among any words that it stands among.** -/
theorem searchWord_of_place {lo hi i : Nat} {w : String} {k : Kind}
    (hw : reserved[i]? = some (w, k)) (hlo : lo ≤ i) (hhi : i < hi) (hsize : hi ≤ reserved.size) :
    searchWord (Text.utf8 w) lo hi = some k := by
  -- the half that is gone on with is the one that the word's place is in
  fun_induction searchWord (Text.utf8 w) lo hi with
  | case1 lo hi _ v k' hv hc =>
    rw [compareBytes_reserved hv hw, Nat.compare_eq_eq] at hc
    rw [hc, hw] at hv
    cases hv
    rfl
  | case2 lo hi _ v k' hv hc ih =>
    rw [compareBytes_reserved hv hw, Nat.compare_eq_lt] at hc
    exact ih hc hhi hsize
  | case3 lo hi _ v k' hv hc ih =>
    rw [compareBytes_reserved hv hw, Nat.compare_eq_gt] at hc
    exact ih hlo hc (by omega)
  | case4 lo hi _ hnone =>
    rw [Array.getElem?_eq_none_iff] at hnone
    omega
  | case5 => omega

/-- The kind beside the first reserved word that a word is. -/
def firstWord (word : List UInt8) : Option Kind :=
  (reserved.find? fun p => Text.utf8 p.1 == word).map Prod.snd

/-- **Halving finds what going through the words one after the other finds.** -/
theorem searchWord_eq_firstWord (word : List UInt8) :
    searchWord word 0 reserved.size = firstWord word := by
  rw [firstWord]
  cases hfind : reserved.find? fun p => Text.utf8 p.1 == word with
  | none =>
    have hnone := Array.find?_eq_none.1 hfind
    rw [Option.map_none, Option.eq_none_iff_forall_ne_some]
    intro k hk
    obtain ⟨w, hw, hword⟩ := mem_of_searchWord hk
    exact hnone (w, k) hw (beq_iff_eq.2 hword)
  | some p =>
    obtain rfl : Text.utf8 p.1 = word := by simpa using Array.find?_some hfind
    obtain ⟨i, hi⟩ := Array.mem_iff_getElem?.1 (Array.mem_of_find?_eq_some hfind)
    exact searchWord_of_place hi (Nat.zero_le i) (Array.getElem?_eq_some_iff.1 hi).1 (Nat.le_refl _)

/-- The word is one of the reserved words. -/
def IsReserved (word : List UInt8) : Prop := ∃ w k, (w, k) ∈ reserved ∧ Text.utf8 w = word

/-- **A word that is not reserved is a name.** -/
theorem wordKind_of_not_isReserved {word : List UInt8} (h : ¬ IsReserved word) :
    wordKind word = .identifier := by
  unfold wordKind
  cases hs : searchWord word 0 reserved.size with
  | none => rfl
  | some k =>
    obtain ⟨w, hw, rfl⟩ := mem_of_searchWord hs
    exact absurd ⟨w, k, hw, rfl⟩ h

/-- **A reserved word has the kind that it stands for.** -/
theorem wordKind_of_mem {w : String} {k : Kind} (h : (w, k) ∈ reserved) :
    wordKind (Text.utf8 w) = k := by
  obtain ⟨i, hi⟩ := Array.mem_iff_getElem?.1 h
  have hlt := (Array.getElem?_eq_some_iff.1 hi).1
  rw [wordKind, searchWord_of_place hi (Nat.zero_le i) hlt (Nat.le_refl _)]
  rfl

/-- A word has no kind but those of the reserved words and of names. -/
theorem wordKind_ne {kind : Kind} (hreserved : ∀ p ∈ reserved.toList, p.2 ≠ kind)
    (hname : .identifier ≠ kind) (word : List UInt8) : wordKind word ≠ kind := by
  by_cases h : IsReserved word
  · obtain ⟨w, k, hk, rfl⟩ := h
    rw [wordKind_of_mem hk]
    exact hreserved (w, k) (Array.mem_toList_iff.2 hk)
  · rwa [wordKind_of_not_isReserved h]

theorem wordKind_ne_endOfInput (word : List UInt8) : wordKind word ≠ .endOfInput :=
  wordKind_ne (by decide) (by decide) word

theorem wordKind_ne_error (word : List UInt8) : wordKind word ≠ .error :=
  wordKind_ne (by decide) (by decide) word

end Token
end ClassIndex
