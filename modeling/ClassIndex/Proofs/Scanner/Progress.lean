/-
# Every call makes progress

A call that shows a token takes bytes off the open sources and leaves its source open; a call that
shows the end of the input leaves none open. So the end is met after at most one call more than
there are bytes left (`next_progresses`). A scanner that has met it shows nothing else any more,
and stays as it is.

| a call shows | bytes left of the open sources | sources left open |
| --- | --- | --- |
| a token | fewer than before | one at least |
| the end of the input | none | none |
-/

import ClassIndex.Proofs.Cursor.Loops
import ClassIndex.Proofs.Scanner.Tokens
import Mathlib.Algebra.Ring.Nat

namespace ClassIndex

namespace Cursor

/-- Where a source ends, nothing is kept. -/
theorem lexeme_of_token_none {c d : Cursor} (h : c.token = (none, d)) : d.lexeme.toList = [] := by
  fun_induction token c with
  | case1 => cases h
  | case2 c b d _ e _ ih => exact ih h
  | case3 c d hd =>
    cases h
    have hlexeme : d.lexeme = c.begin.lexeme := by simpa only [hd] using c.begin.lexeme_next
    rw [hlexeme]
    rfl

end Cursor

namespace Scanner

/-! ## One call comes to an end -/

/-- A round of the search for a source that has a token left. -/
def advanceRound : Scanner × List Source → (Scanner × List Source) ⊕ (Token.Kind × Scanner)
  | (s, []) => .inr (s.advance [])
  | (s, f :: outer) =>
    match (s.cursor f).token with
    | (some kind, c) => .inr (kind, { s.settle c with sources := c.source :: outer })
    | (none, c) =>
      match outer with
      | [] => .inr (.endOfInput, (s.settle c).close c.source [])
      | _ :: _ => .inl ((s.settle c).close c.source outer, outer)

theorem advanceRound_falls {p q : Scanner × List Source} (h : advanceRound p = .inl q) :
    q.2.length < p.2.length := by
  obtain ⟨s, _ | ⟨f, outer⟩⟩ := p
  · cases h
  · unfold advanceRound at h
    dsimp only at h ⊢
    split at h
    · cases h
    · split at h
      · cases h
      · cases h; exact Nat.lt_succ_self _

/-- The search passes over no more sources than are open. -/
theorem advance_ends (s : Scanner) :
    EndsWithin advanceRound (s.depth + 1) (s, s.sources) (s.advance s.sources) := by
  refine endsWithin_of_falls (f := fun p => p.1.advance p.2) (fun p => p.2.length) (fun p => ?_)
    advanceRound_falls (s, s.sources)
  obtain ⟨s, _ | ⟨f, outer⟩⟩ := p
  · rfl
  · simp only [advance, advanceRound]
    rcases (s.cursor f).token with ⟨_ | kind, c⟩
    · cases outer <;> rfl
    · rfl

/-! ## What one call takes -/

/-- The number of bytes that the open sources are still to hand out. -/
def remaining (s : Scanner) : Nat := (s.sources.map Source.remaining).sum

/-- A call shows a token and takes bytes, or it shows the end and leaves nothing. -/
theorem outcome_progress (warns : Bool) (sources : List Source) :
    ((outcome warns sources).1.kind = .endOfInput ∧ (outcome warns sources).1.lexeme = [] ∧
        (outcome warns sources).2 = []) ∨
      ((outcome warns sources).1.kind ≠ .endOfInput ∧ (outcome warns sources).2 ≠ [] ∧
        ((outcome warns sources).2.map Source.remaining).sum < (sources.map Source.remaining).sum) := by
  induction sources with
  | nil => exact .inl ⟨rfl, rfl, rfl⟩
  | cons f outer ih =>
    rcases hc : (freshCursor warns f).token with ⟨_ | kind, c⟩
    · by_cases hne : outer = []
      · left
        subst hne
        refine ⟨(outcome_of_none hc).1, ?_, ?_⟩
        · simp only [outcome, hc]
          exact Cursor.lexeme_of_token_none hc
        · simp only [outcome, hc]
      · rw [outcome_cons_of_none hc hne, List.map_cons, List.sum_cons]
        rcases ih with hend | ⟨hkind, hsources, hlt⟩
        · exact .inl hend
        · exact .inr ⟨hkind, hsources, Nat.lt_add_left _ hlt⟩
    · right
      have hlt := Cursor.remaining_token (freshCursor warns f)
      have hkind := Cursor.token_ne_endOfInput (freshCursor warns f)
      rw [hc] at hlt hkind
      have hbytes : c.source.remaining < f.remaining := hlt
      simp only [outcome, hc]
      refine ⟨fun h => hkind (congrArg some h), List.cons_ne_nil _ _, ?_⟩
      rw [List.map_cons, List.map_cons, List.sum_cons, List.sum_cons]
      omega

variable {s : Scanner}

theorem next_cases (s : Scanner) :
    (s.next.1 = .endOfInput ∧ s.next.2.lexeme.toList = [] ∧ s.next.2.sources = []) ∨
      (s.next.1 ≠ .endOfInput ∧ s.next.2.sources ≠ [] ∧ s.next.2.remaining < s.remaining) := by
  have h := next_shows s
  rw [remaining, remaining, h.kind, h.lexeme, h.sources]
  exact outcome_progress _ _

/-- After no more calls than there are bytes left, the next one meets the end of the input. -/
theorem exists_end (s : Scanner) :
    ∃ n ≤ s.remaining, (∀ k < n, (s.after k).next.1 ≠ .endOfInput) ∧
      (s.after n).next.1 = .endOfInput := by
  induction hr : s.remaining using Nat.strongRecOn generalizing s with
  | ind r ih =>
    rcases next_cases s with ⟨hend, -, -⟩ | ⟨hkind, -, hlt⟩
    · exact ⟨0, Nat.zero_le r, fun k hk => absurd hk (Nat.not_lt_zero k), hend⟩
    · obtain ⟨n, hn, htokens, hend⟩ := ih s.next.2.remaining (hr ▸ hlt) s.next.2 rfl
      refine ⟨n + 1, by omega, ?_, hend⟩
      rintro (_ | k) hk
      · exact hkind
      · exact htokens k (by omega)

/-! ## After the end -/

/-- The end of the input has been met, and nothing is left of what was read. -/
structure Finished (s : Scanner) : Prop where
  sources : s.sources = []
  lexeme : s.lexeme.toList = []
  noted : s.endNoted = true

theorem endNoted_count (s : Scanner) : (s.count .endOfInput).endNoted = true := by
  unfold count
  dsimp only
  split
  · rfl
  · rename_i h
    simpa using h

/-- The call that meets the end leaves the scanner finished, and counts nothing. -/
theorem finished_next (h : s.next.1 = .endOfInput) :
    s.next.2.Finished ∧ s.next.2.metrics = s.metrics := by
  obtain ⟨-, hlexeme, hsources⟩ := (next_cases s).resolve_right fun hk => hk.1 h
  have hnoted : s.next.2.endNoted = true := by
    show ((s.advance s.sources).2.count s.next.1).endNoted = true
    rw [h]
    exact endNoted_count _
  refine ⟨⟨hsources, hlexeme, hnoted⟩, ?_⟩
  rw [metrics_next, h]
  rfl

/-- A finished scanner shows the end again, and has nothing more to say. -/
theorem Finished.next (h : s.Finished) : s.next.1 = .endOfInput ∧ s.next.2.journal = s.journal := by
  have hadvance : s.advance s.sources =
      (.endOfInput, { s with sources := [], lexeme := s.lexeme.clear, startLine := -1,
                             startColumn := -1 }) := by
    rw [h.sources, advance]
  constructor
  · show (s.advance s.sources).1 = _
    rw [hadvance]
  · show ((s.advance s.sources).2.count (s.advance s.sources).1).journal = _
    simp [hadvance, count, h.noted]

theorem Finished.after (h : s.Finished) (k : Nat) :
    (s.after k).Finished ∧ (s.after k).metrics = s.metrics ∧ (s.after k).journal = s.journal := by
  induction k generalizing s with
  | zero => exact ⟨h, rfl, rfl⟩
  | succ k ih =>
    obtain ⟨hend, hjournal⟩ := h.next
    obtain ⟨hfinished, hmetrics⟩ := finished_next hend
    obtain ⟨hk, hm, hj⟩ := ih hfinished
    exact ⟨hk, hm.trans hmetrics, hj.trans hjournal⟩

/-- **Every call makes progress, and the end of the input is final.** A call comes to an end. It
takes a byte at least, or it shows the end of the input; and it shows the end just if it leaves no
source open. The end comes after at most one call more than there are bytes left, and from there on
every call shows it, with nothing in the lexeme, nothing counted and nothing said. -/
theorem next_progresses (s : Scanner) :
    (EndsWithin advanceRound (s.depth + 1) (s, s.sources) (s.advance s.sources) ∧
        ∀ c : Cursor, c.LoopsEnd) ∧
      (s.next.1 ≠ .endOfInput → s.next.2.remaining < s.remaining) ∧
      (s.next.1 = .endOfInput ↔ s.next.2.sources = []) ∧
      ∃ n ≤ s.remaining, (∀ k < n, (s.after k).next.1 ≠ .endOfInput) ∧
        (s.after n).next.1 = .endOfInput ∧
        ∀ k, (s.after (n + 1 + k)).next.1 = .endOfInput ∧
          (s.after (n + 1 + k)).sources = [] ∧ (s.after (n + 1 + k)).lexeme.toList = [] ∧
          (s.after (n + 1 + k)).metrics = (s.after n).metrics ∧
          (s.after (n + 1 + k)).journal = (s.after (n + 1)).journal := by
  refine ⟨⟨advance_ends s, Cursor.loopsEnd⟩, ?_, ?_, ?_⟩
  · intro hkind
    exact ((next_cases s).resolve_left fun h => hkind h.1).2.2
  · constructor
    · intro hend
      exact ((next_cases s).resolve_right fun h => h.1 hend).2.2
    · intro hsources
      exact ((next_cases s).resolve_right fun h => h.2.1 hsources).1
  · obtain ⟨n, hn, htokens, hend⟩ := exists_end s
    obtain ⟨hfinished, hmetrics⟩ := finished_next hend
    have hnext : s.after (n + 1) = (s.after n).next.2 := after_add s n 1
    refine ⟨n, hn, htokens, hend, fun k => ?_⟩
    obtain ⟨hk, hm, hj⟩ := hfinished.after k
    rw [after_add s (n + 1) k, hnext]
    exact ⟨hk.next.1, hk.sources, hk.lexeme, hm.trans hmetrics, hj⟩

end Scanner
end ClassIndex
