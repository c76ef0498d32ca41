/-
# Nested sources are apart

A source that is opened inside another is read as if it were alone, and once it has ended the
outer ones are read as if it had never been opened (`push_isolated`). The calls fall into two
rows with one call at their border, which meets the end of the inner source and goes on outside:

| call | shows | sources left open |
| --- | --- | --- |
| `k < n` | what the inner source alone shows | the inner one and the outer ones untouched |
| `n` | what the outer ones show, after the diagnostics at the end of the inner one | outer ones |
| `n + 1 + k` | what the outer ones show | outer ones |
-/

import ClassIndex.Proofs.Cursor.Kind
import ClassIndex.Proofs.Scanner.Outcome

namespace ClassIndex
namespace Scanner

theorem push_of_lt {s : Scanner} (h : s.depth < maxDepth) (f : Source) :
    s.push f = (.ok (), s.suspend f) := by
  unfold push
  rw [if_neg (by omega)]

/-- A source that is opened first is the only one. -/
theorem sources_push_new (preferences : ScanPreferences) (journal : Diagnostic.Journal)
    (f : Source) : ((new preferences journal).push f).2.sources = [f] := by
  have hroom : (new preferences journal).depth < maxDepth := Nat.zero_lt_succ 14
  rw [push_of_lt hroom, sources_suspend]
  rfl

@[simp] theorem preferences_suspend (s : Scanner) (f : Source) :
    (s.suspend f).preferences = s.preferences := by
  unfold suspend noteSource
  dsimp only
  split <;> rfl

/-- Opening a source records no diagnostic. -/
theorem diagnostics_suspend (s : Scanner) (f : Source) :
    (s.suspend f).journal.diagnostics = s.journal.diagnostics := by
  obtain ⟨j, h, hj⟩ := noteSource_eq s ((Diagnostic.Event.trace "Source opened").withFacts
    [("name", f.name), ("depth", toString (s.depth + 1))])
  rw [suspend, h]
  exact hj

variable {s t : Scanner} {f : Source} {outer : List Source}

/-- A token of the innermost source is the same whatever lies around that source. -/
theorem outcome_of_some {w : Bool} {kind : Token.Kind} {c : Cursor}
    (h : (freshCursor w f).token = (some kind, c)) (outer : List Source) :
    (outcome w (f :: outer)).1 = (outcome w [f]).1 ∧ (outcome w [f]).1.kind = kind ∧
      (outcome w (f :: outer)).2 = c.source :: outer := by
  refine ⟨?_, ?_, ?_⟩ <;> simp only [outcome, h]

/-- Where the innermost source ends, the call goes on with those around it. -/
theorem outcome_of_none {w : Bool} {c : Cursor} (h : (freshCursor w f).token = (none, c)) :
    (outcome w [f]).1.kind = .endOfInput ∧ (outcome w [f]).1.diagnostics = c.faults := by
  constructor <;> simp only [outcome, h]

theorem outcome_cons_of_none {w : Bool} {c : Cursor} (h : (freshCursor w f).token = (none, c))
    (hne : outer ≠ []) :
    outcome w (f :: outer) = ((outcome w outer).1.preceded c.faults, (outcome w outer).2) := by
  obtain ⟨g, outer, rfl⟩ := List.exists_cons_of_ne_nil hne
  rw [outcome]
  simp only [h]

/-- The calls that read an innermost source, up to the one that meets its end. -/
theorem exists_border (hs : s.sources = f :: outer) (hne : outer ≠ []) (ht : t.sources = [f])
    (hw : s.preferences.warnUnrecognized = t.preferences.warnUnrecognized) :
    ∃ n, (∀ k < n, s.stream k = t.stream k ∧ (t.stream k).kind ≠ .endOfInput) ∧
      (t.stream n).kind = .endOfInput ∧
      s.stream n = (outcome s.preferences.warnUnrecognized outer).1.preceded
        (t.stream n).diagnostics ∧
      (s.after (n + 1)).sources = (outcome s.preferences.warnUnrecognized outer).2 ∧
      ∀ k ≤ n, ∃ g, (t.after k).sources = [g] ∧ (s.after k).sources = g :: outer := by
  -- every token but the last takes bytes of the innermost source
  induction hr : f.remaining using Nat.strongRecOn generalizing s t f with
  | ind r ih =>
    subst hr
    rcases hc : (freshCursor s.preferences.warnUnrecognized f).token with ⟨_ | kind, c⟩
    · refine ⟨0, by simp, ?_, ?_, ?_, ?_⟩
      · rw [stream_zero, observe_eq, ht, ← hw]
        exact (outcome_of_none hc).1
      · rw [stream_zero, stream_zero, observe_eq, observe_eq, hs, ht, ← hw,
          (outcome_of_none hc).2, outcome_cons_of_none hc hne]
      · show s.next.2.sources = _
        rw [sources_next, hs, outcome_cons_of_none hc hne]
      · rintro k hk
        obtain rfl : k = 0 := by omega
        exact ⟨f, ht, hs⟩
    · obtain ⟨ho, hk, hs'⟩ := outcome_of_some hc outer
      obtain ⟨-, -, ht'⟩ := outcome_of_some hc []
      have hlt : c.source.remaining < f.remaining := by
        have := Cursor.remaining_token (freshCursor s.preferences.warnUnrecognized f)
        rw [hc] at this
        exact this
      have hne' : kind ≠ .endOfInput := by
        have := Cursor.token_ne_endOfInput (freshCursor s.preferences.warnUnrecognized f)
        rw [hc] at this
        exact fun h => this (congrArg some h)
      obtain ⟨n, h₁, h₂, h₃, h₄, h₅⟩ := ih c.source.remaining hlt (s := s.next.2) (t := t.next.2)
        (by rw [sources_next, hs, hs']) (by rw [sources_next, ht, ← hw, ht']) (by simpa using hw) rfl
      rw [preferences_next] at h₃ h₄
      refine ⟨n + 1, ?_, h₂, h₃, h₄, ?_⟩
      · rintro (_ | k) hkn
        · rw [stream_zero, stream_zero, observe_eq, observe_eq, hs, ht, ← hw, ho]
          exact ⟨rfl, hk ▸ hne'⟩
        · exact h₁ k (by omega)
      · rintro (_ | k) hkn
        · exact ⟨f, ht, hs⟩
        · exact h₅ k (by omega)

/-- **A nested source is read as if it were alone, and leaves no trace.** With room for one more
source, the calls after it is opened show first what it shows alone, then, from the call that
meets its end, what the sources around it would have shown without it. Until that call these
sources are untouched. -/
theorem push_isolated (s : Scanner) (hopen : 0 < s.depth) (hroom : s.depth < maxDepth)
    (name : String) (bytes : List UInt8) (failure? : Option String)
    (journal : Diagnostic.Journal) :
    let f := Source.ofBytes name bytes failure?
    let nested := (s.push f).2
    let alone := ((new s.preferences journal).push f).2
    (s.push f).1 = .ok () ∧ ∃ n,
      (∀ k < n, nested.stream k = alone.stream k ∧ (alone.stream k).kind ≠ .endOfInput) ∧
      (alone.stream n).kind = .endOfInput ∧
      nested.stream n = (s.stream 0).preceded (alone.stream n).diagnostics ∧
      (∀ k, nested.stream (n + 1 + k) = s.stream (1 + k)) ∧
      ∀ k ≤ n, ∃ g, (alone.after k).sources = [g] ∧ (nested.after k).sources = g :: s.sources := by
  intro f nested alone
  have hnested : nested = s.suspend f := congrArg Prod.snd (push_of_lt hroom f)
  have halone : alone = (new s.preferences journal).suspend f := rfl
  have hne : s.sources ≠ [] := List.ne_nil_of_length_pos hopen
  obtain ⟨n, h₁, h₂, h₃, h₄, h₅⟩ := exists_border (s := nested) (t := alone) (f := f)
    (by rw [hnested, sources_suspend]) hne (by rw [halone, sources_suspend]; rfl)
    (by rw [hnested, halone, preferences_suspend, preferences_suspend]; rfl)
  rw [hnested, preferences_suspend, ← hnested] at h₃ h₄
  refine ⟨congrArg Prod.fst (push_of_lt hroom f), n, h₁, h₂, ?_, fun k => ?_, h₅⟩
  · rw [h₃, stream_zero, observe_eq]
  · rw [stream_add nested, stream_add s]
    refine stream_congr ?_ ?_ k
    · rw [h₄]
      exact (sources_next s).symm
    · rw [preferences_after, preferences_after, hnested, preferences_suspend]

/-- A comment without an end, opened where a sign has been given back, leaves the sign. -/
theorem push_isolated_comment :
    0 < (ofText "outer.g" [0x78, 0x3b] .empty).next.2.depth ∧
      (ofText "outer.g" [0x78, 0x3b] .empty).next.2.depth < maxDepth ∧
      ∃ n, (((ofText "outer.g" [0x78, 0x3b] .empty).next.2.push
          (.ofBytes "inner.g" [0x2f, 0x2a] none)).2.stream n) =
        ((ofText "outer.g" [0x78, 0x3b] .empty).next.2.stream 0).preceded
          (((new (ofText "outer.g" [0x78, 0x3b] .empty).next.2.preferences .empty).push
            (.ofBytes "inner.g" [0x2f, 0x2a] none)).2.stream n).diagnostics := by
  obtain ⟨hopen, hroom⟩ : 0 < (ofText "outer.g" [0x78, 0x3b] .empty).next.2.depth ∧
      (ofText "outer.g" [0x78, 0x3b] .empty).next.2.depth < maxDepth := by decide +kernel
  obtain ⟨-, n, -, -, h, -⟩ := push_isolated _ hopen hroom "inner.g" [0x2f, 0x2a] none .empty
  exact ⟨hopen, hroom, n, h⟩

end Scanner
end ClassIndex
