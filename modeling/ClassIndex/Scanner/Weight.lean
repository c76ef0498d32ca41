/-
# What is left to read

With a bound `m` on the size of whatever may still be opened, a stack of sources weighs

  `∑ (bytes left + 1) · m ^ (15 - depth)`.

A token takes at least one byte of the source it ends in, and a source with fewer than `m - 1`
bytes weighs less than that byte. So the weight falls with every token, even if the token opens
a further source: whatever a finite tree of files imports, its scan comes to an end.
-/

import ClassIndex.Scanner.Basic

namespace ClassIndex
namespace Scanner

/-- The weight of a byte of a source that lies so deep. -/
def byteWeight (m depth : Nat) : Nat := Nat.pow m (maxDepth - depth)

theorem byteWeight_pos {m depth : Nat} (h : 0 < m) : 0 < byteWeight m depth := Nat.pow_pos h

/-- A byte weighs as much as `m` bytes one source further in. -/
theorem byteWeight_eq_mul {m depth : Nat} (h : depth < maxDepth) :
    byteWeight m depth = byteWeight m (depth + 1) * m := by
  obtain ⟨k, hk⟩ : ∃ k, maxDepth - depth = k + 1 := ⟨maxDepth - depth - 1, by omega⟩
  have hk' : maxDepth - (depth + 1) = k := by omega
  unfold byteWeight
  rw [hk, hk']
  rfl

/-- The weight of a stack of sources. -/
def weight (m : Nat) : List Source → Nat
  | [] => 0
  | f :: outer => (f.remaining + 1) * byteWeight m (outer.length + 1) + weight m outer

@[simp] theorem weight_nil (m : Nat) : weight m [] = 0 := rfl

theorem weight_cons (m : Nat) (f : Source) (outer : List Source) :
    weight m (f :: outer) =
      (f.remaining + 1) * byteWeight m (outer.length + 1) + weight m outer := rfl

@[simp] theorem sources_note (s : Scanner) (e : Diagnostic.Event) :
    (s.note e).sources = s.sources := rfl

@[simp] theorem sources_noteSource (s : Scanner) (e : Diagnostic.Event) :
    (s.noteSource e).sources = s.sources := by
  unfold noteSource; split <;> rfl

@[simp] theorem sources_report (s : Scanner) (f : Fault) :
    (s.report f).sources = s.sources := rfl

@[simp] theorem sources_reportToken (s : Scanner) (f : Fault) :
    (s.reportToken f).sources = s.sources := rfl

@[simp] theorem sources_close (s : Scanner) (f : Source) (outer : List Source) :
    (s.close f outer).sources = outer := by simp [close]

@[simp] theorem sources_count (s : Scanner) (kind : Token.Kind) :
    (s.count kind).sources = s.sources := by
  unfold count; dsimp only; split <;> rfl

@[simp] theorem sources_refuse (s : Scanner) (e : OpenError) :
    (s.refuse e).2.sources = s.sources := rfl

@[simp] theorem sources_suspend (s : Scanner) (f : Source) :
    (s.suspend f).sources = f :: s.sources := by simp [suspend]

/-- The weight that a token takes at least, in the stack of sources it leaves. -/
def tokenWeight (m : Nat) (sources : List Source) : Nat := byteWeight m sources.length

theorem tokenWeight_pos {m : Nat} {sources : List Source} (h : 0 < m) :
    0 < tokenWeight m sources := byteWeight_pos h

theorem advance_weight (m : Nat) (s : Scanner) (sources : List Source) :
    ((s.advance sources).1 = .endOfInput ∧ (s.advance sources).2.sources = []) ∨
      weight m (s.advance sources).2.sources + tokenWeight m (s.advance sources).2.sources
        ≤ weight m sources := by
  induction sources generalizing s with
  | nil => exact .inl ⟨rfl, rfl⟩
  | cons f outer ih =>
    unfold advance
    split
    · rename_i kind c h
      right
      have ht := Cursor.remaining_token (s.cursor f)
      rw [h] at ht
      have hr : c.source.remaining + 1 ≤ f.remaining := by
        simpa [Cursor.remaining, cursor] using ht
      have := Nat.mul_le_mul_right (byteWeight m (outer.length + 1)) (Nat.add_le_add_right hr 1)
      rw [Nat.add_mul (c.source.remaining + 1) 1, Nat.one_mul] at this
      simp only [weight_cons, tokenWeight, List.length_cons]
      omega
    · rename_i c h
      dsimp only
      split
      · exact .inl ⟨rfl, sources_close ..⟩
      · rename_i g outer'
        rcases ih ((s.settle c).close c.source (g :: outer')) with h | h
        · exact .inl h
        · exact .inr (by rw [weight_cons]; omega)

/-- **Every token takes its share of the weight;** without one, no source is left. -/
theorem next_weight (m : Nat) (s : Scanner) :
    (s.next.1 = .endOfInput ∧ s.next.2.sources = []) ∨
      weight m s.next.2.sources + tokenWeight m s.next.2.sources ≤ weight m s.sources := by
  simpa [next] using advance_weight m s s.sources

/-- **What a file opens weighs less than a token,** if the bound is large enough for the file. -/
theorem openFile_weight {m : Nat} {t : FileTree} (hm : t.largest + 2 ≤ m) (s : Scanner)
    (path : String) :
    weight m (s.openFile t path).2.sources < weight m s.sources + tokenWeight m s.sources := by
  have hpos : 0 < tokenWeight m s.sources := tokenWeight_pos (by omega)
  unfold openFile
  split
  · rw [sources_refuse]; omega
  · rename_i hd
    split
    · rename_i bytes failure? hr
      rw [sources_suspend, weight_cons]
      have hb := FileTree.length_le_of_read hr
      have hrem : (Source.ofBytes path bytes failure?).remaining = bytes.length := by
        simp [Source.ofBytes, Source.remaining]
      have hlt : s.sources.length < maxDepth := by simpa [depth] using hd
      have hbyte : 0 < byteWeight m (s.sources.length + 1) := byteWeight_pos (by omega)
      have := Nat.mul_lt_mul_of_pos_right (show bytes.length + 1 < m by omega) hbyte
      rw [tokenWeight, byteWeight_eq_mul hlt, hrem, Nat.mul_comm _ m]
      omega
    · rw [sources_refuse]; omega

end Scanner
end ClassIndex
