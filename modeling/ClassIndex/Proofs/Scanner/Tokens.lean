/-
# The tokens of a source

A source read alone holds a row of tokens, and records diagnostics on the way. Where it lies on a
stack of sources, calls show the same tokens (`next_of_comes`), and the sources that were opened
above it and have ended leave only their diagnostics. Scanning a single source to its end gives
the row of its tokens (`scan_of_holds`).
-/

import ClassIndex.Proofs.Scanner.Isolation

namespace ClassIndex

open Diagnostic (Event)

/-- A token as it was scanned. -/
structure Token.Scanned where
  kind : Token.Kind
  lexeme : List UInt8
deriving DecidableEq

/-- The text of a scanned token. -/
def Token.Scanned.text (t : Token.Scanned) : String := Text.lossy t.lexeme

open Scanner (freshCursor outcome)

/-- A source read alone holds these tokens and records these diagnostics. -/
inductive Source.Holds (w : Bool) : Source → List Token.Scanned → List Event → Prop
  | nil {f : Source} {c : Cursor} (h : (freshCursor w f).token = (none, c)) :
      Holds w f [] c.faults
  | cons {f : Source} {kind : Token.Kind} {c : Cursor} {ts : List Token.Scanned}
      {events : List Event} (h : (freshCursor w f).token = (some kind, c))
      (hrest : Holds w c.source ts events) :
      Holds w f (⟨kind, c.lexeme.toList⟩ :: ts) (c.faults ++ events)

/-- These tokens come next, from a source that lies on these others. Sources opened above it may
lie before it, but they have ended; the diagnostics are those of all sources down to it. -/
inductive Comes (w : Bool) :
    List Source → List Token.Scanned → List Source → List Event → Prop
  | here {f : Source} {ts : List Token.Scanned} {outer : List Source} {events : List Event}
      (h : f.Holds w ts events) : Comes w (f :: outer) ts outer events
  | ended {e : Source} {sources : List Source} {ts : List Token.Scanned} {outer : List Source}
      {events later : List Event} (he : e.Holds w [] events)
      (h : Comes w sources ts outer later) : Comes w (e :: sources) ts outer (events ++ later)

namespace Source.Holds

variable {w : Bool} {f : Source} {ts ts' : List Token.Scanned} {events events' : List Event}

theorem kind_ne (h : f.Holds w ts events) : ∀ t ∈ ts, t.kind ≠ .endOfInput := by
  induction h with
  | nil => simp
  | @cons f kind c ts events hc _ ih =>
    have hne := Cursor.token_ne_endOfInput (freshCursor w f)
    rw [hc] at hne
    simp only [List.mem_cons, forall_eq_or_imp]
    exact ⟨fun hk => hne (congrArg some hk), ih⟩

theorem unique (h : f.Holds w ts events) (h' : f.Holds w ts' events') :
    ts = ts' ∧ events = events' := by
  induction h generalizing ts' events' with
  | nil hc =>
    cases h' with
    | nil hc' => cases hc.symm.trans hc'; exact ⟨rfl, rfl⟩
    | cons hc' => cases hc.symm.trans hc'
  | cons hc _ ih =>
    cases h' with
    | nil hc' => cases hc.symm.trans hc'
    | cons hc' hrest' =>
      cases hc.symm.trans hc'
      obtain ⟨rfl, rfl⟩ := ih hrest'
      exact ⟨rfl, rfl⟩

end Source.Holds

/-- Every source holds some tokens. -/
theorem Source.exists_holds (w : Bool) (f : Source) : ∃ ts events, f.Holds w ts events := by
  induction hr : f.remaining using Nat.strongRecOn generalizing f with
  | ind r ih =>
    rcases hc : (freshCursor w f).token with ⟨_ | kind, c⟩
    · exact ⟨_, _, .nil hc⟩
    · have hlt := Cursor.remaining_token (freshCursor w f)
      rw [hc] at hlt
      obtain ⟨ts, events, h⟩ := ih c.source.remaining (hr ▸ hlt) c.source rfl
      exact ⟨_, _, .cons hc h⟩

namespace Comes

variable {w : Bool} {sources outer : List Source} {t : Token.Scanned} {ts : List Token.Scanned}
  {events : List Event}

theorem ne_nil (h : Comes w sources ts outer events) : sources ≠ [] := by
  cases h <;> simp

theorem kind_ne (h : Comes w sources ts outer events) : ∀ t ∈ ts, t.kind ≠ .endOfInput := by
  induction h with
  | here h => exact h.kind_ne
  | ended _ _ ih => exact ih

/-- The next of the tokens is what a call shows. -/
theorem outcome_cons (h : Comes w sources (t :: ts) outer events) :
    ∃ f now later, (outcome w sources).1.kind = t.kind ∧ (outcome w sources).1.lexeme = t.lexeme ∧
      (outcome w sources).1.diagnostics = now ∧ (outcome w sources).2 = f :: outer ∧
      f.Holds w ts later ∧ events = now ++ later := by
  generalize hts : t :: ts = row at h
  induction h with
  | here h =>
    subst hts
    cases h with
    | cons hc hrest =>
      refine ⟨_, _, _, ?_, ?_, ?_, ?_, hrest, rfl⟩ <;> simp only [outcome, hc]
  | ended he h ih =>
    obtain ⟨f, now, later, hk, hl, hd, hs, hf, rfl⟩ := ih hts
    cases he with
    | nil hc =>
      rw [Scanner.outcome_cons_of_none hc h.ne_nil]
      exact ⟨f, _, later, hk, hl, rfl, hs, hf, by
        rw [Observation.preceded, hd, List.append_assoc]⟩

/-- Where no token comes any more and nothing lies outside, the input ends. -/
theorem outcome_nil (h : Comes w sources [] [] events) :
    (outcome w sources).1.kind = .endOfInput ∧ (outcome w sources).1.diagnostics = events ∧
      (outcome w sources).2 = [] := by
  generalize hts : ([] : List Token.Scanned) = row at h
  generalize hout : ([] : List Source) = outer at h
  induction h with
  | here h =>
    subst hts hout
    cases h with
    | nil hc => refine ⟨?_, ?_, ?_⟩ <;> simp only [outcome, hc]
  | ended he h ih =>
    obtain ⟨hk, hd, hs⟩ := ih hts hout
    cases he with
    | nil hc =>
      rw [Scanner.outcome_cons_of_none hc h.ne_nil]
      exact ⟨hk, congrArg _ hd, hs⟩

/-- Where a source has ended, what comes is what comes from the source around it. -/
theorem of_ended {f : Source} {later : List Event} (h : Comes w sources [] (f :: outer) events)
    (hf : f.Holds w ts later) : Comes w sources ts outer (events ++ later) := by
  generalize hrow : ([] : List Token.Scanned) = row at h
  generalize hout : f :: outer = around at h
  induction h with
  | here h => subst hrow hout; exact .ended h (.here hf)
  | ended he _ ih => rw [List.append_assoc]; exact .ended he (ih hrow hout)

end Comes

namespace Scanner

variable {s : Scanner} {f : Source} {outer : List Source} {t : Token.Scanned}
  {ts : List Token.Scanned} {events : List Event}

/-! ## One call -/

/-- The tokens come next from a scanner, from a source that lies on these others. -/
def Comes (s : Scanner) (ts : List Token.Scanned) (outer : List Source) (events : List Event) :
    Prop :=
  ClassIndex.Comes s.preferences.warnUnrecognized s.sources ts outer events

theorem comes_of_holds (hs : s.sources = f :: outer)
    (hf : f.Holds s.preferences.warnUnrecognized ts events) : s.Comes ts outer events := by
  rw [Comes, hs]
  exact .here hf

/-- Where a source has ended, what comes is what comes from the source around it. -/
theorem comes_of_ended {later : List Event} (h : s.Comes [] (f :: outer) events)
    (hf : f.Holds s.preferences.warnUnrecognized ts later) :
    s.Comes ts outer (events ++ later) :=
  ClassIndex.Comes.of_ended h hf

/-- **A call shows the token that comes next,** and leaves its source innermost. -/
theorem next_of_comes (h : s.Comes (t :: ts) outer events) :
    ∃ f now later, s.next.1 = t.kind ∧ s.next.2.lexemeText = t.text ∧
      s.next.2.lexeme.toList = t.lexeme ∧
      s.next.2.journal.diagnostics = s.journal.diagnostics ++ now ∧
      s.next.2.sources = f :: outer ∧ f.Holds s.preferences.warnUnrecognized ts later ∧
      events = now ++ later := by
  obtain ⟨f, now, later, hk, hl, hd, hs, hf, hevents⟩ := h.outcome_cons
  have hn := next_shows s
  refine ⟨f, now, later, hn.kind.trans hk, ?_, hn.lexeme.trans hl, ?_, hn.sources.trans hs, hf,
    hevents⟩
  · rw [lexemeText, Buffer.text, hn.lexeme, hl, Token.Scanned.text]
  · rw [hn.diagnostics, hd]

/-- Where no token comes any more, a call meets the end of the input. -/
theorem next_of_end (h : s.Comes [] [] events) :
    s.next.1 = .endOfInput ∧ s.next.2.journal.diagnostics = s.journal.diagnostics ++ events ∧
      s.next.2.sources = [] := by
  obtain ⟨hk, hd, hs⟩ := h.outcome_nil
  have hn := next_shows s
  exact ⟨hn.kind.trans hk, by rw [hn.diagnostics, hd], hn.sources.trans hs⟩

/-! ## The counts -/

theorem tokens_countToken (m : Metrics) {kind : Token.Kind} (hk : kind ≠ .endOfInput) :
    (m.countToken kind).tokens = m.tokens + 1 := by
  rw [Metrics.countToken, if_neg hk]
  dsimp only
  split <;> rfl

@[simp] theorem sources_countToken (m : Metrics) (kind : Token.Kind) :
    (m.countToken kind).sources = m.sources := by
  rw [Metrics.countToken]
  split
  · rfl
  · dsimp only
    split <;> rfl

@[simp] theorem metrics_noteSource (s : Scanner) (e : Event) :
    (s.noteSource e).metrics = s.metrics := by
  unfold noteSource
  split <;> rfl

theorem metrics_suspend (s : Scanner) (f : Source) :
    (s.suspend f).metrics = s.metrics.countSource (s.depth + 1) := by
  simp only [suspend, metrics_noteSource]
  rw [depth, sources_noteSource, depth]

theorem metrics_advance (s : Scanner) (sources : List Source) :
    (s.advance sources).2.metrics = s.metrics := by
  induction sources generalizing s with
  | nil => rfl
  | cons f outer ih =>
    unfold advance
    split
    · rfl
    · dsimp only
      split
      · simp [close, settle]
      · rw [ih]
        simp [close, settle]

/-- A call counts what it shows. -/
theorem metrics_next (s : Scanner) : s.next.2.metrics = s.metrics.countToken s.next.1 := by
  show ((s.advance s.sources).2.count (s.advance s.sources).1).metrics = _
  rw [← metrics_advance s s.sources, count]
  dsimp only
  split <;> rfl

/-! ## The whole input -/

/-- Calls up to the end of the input: the tokens they show, and the scanner after them. -/
def scan (s : Scanner) : List Token.Scanned × Scanner :=
  if _h : s.next.1 = .endOfInput then ([], s.next.2)
  else
    (⟨s.next.1, s.next.2.lexeme.toList⟩ :: s.next.2.scan.1, s.next.2.scan.2)
termination_by weight 1 s.sources
decreasing_by
  all_goals
    have hpos : 0 < tokenWeight 1 s.next.2.sources := tokenWeight_pos Nat.one_pos
    rcases next_weight 1 s with ⟨hk, _⟩ | hw
    · exact absurd hk _h
    · omega

/-- **A single source is scanned to the tokens it holds.** -/
theorem scan_of_holds (h : f.Holds s.preferences.warnUnrecognized ts events)
    (hs : s.sources = [f]) :
    s.scan.1 = ts ∧ s.scan.2.journal.diagnostics = s.journal.diagnostics ++ events := by
  induction ts generalizing s f events with
  | nil =>
    obtain ⟨hk, hd, -⟩ := next_of_end (comes_of_holds hs h)
    rw [scan, dif_pos hk]
    exact ⟨rfl, hd⟩
  | cons t ts ih =>
    obtain ⟨g, now, later, hk, -, hl, hd, hsources, hg, rfl⟩ :=
      next_of_comes (comes_of_holds hs h)
    obtain ⟨htokens, hdiagnostics⟩ := ih (s := s.next.2) (by rwa [preferences_next]) hsources
    rw [scan, dif_neg (hk ▸ h.kind_ne t List.mem_cons_self)]
    dsimp only
    rw [htokens, hdiagnostics, hd, hk, hl, List.append_assoc]
    exact ⟨rfl, rfl⟩

end Scanner
end ClassIndex
