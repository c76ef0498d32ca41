/-
# What a call for a token shows

A call for a token shows a kind, the bytes of its lexeme, its location and the diagnostics that it
records. All of this, and the sources that the call leaves open, is decided by the sources that
were open and by whether unknown bytes are warned of (`next_shows`). So two scanners over equal
sources show the same from then on, whatever each of them has read before (`stream_congr`).
-/

import ClassIndex.Proofs.Cursor.Alike
import ClassIndex.Scanner.Weight

namespace ClassIndex

/-- What a call for a token shows. -/
structure Observation where
  kind : Token.Kind
  lexeme : List UInt8
  location : Location
  diagnostics : List Diagnostic.Event

namespace Observation

/-- The observation with diagnostics that were recorded before it in the same call. -/
def preceded (o : Observation) (events : List Diagnostic.Event) : Observation :=
  { o with diagnostics := events ++ o.diagnostics }

end Observation

namespace Scanner

/-- The next call for a token shows this. -/
def observe (s : Scanner) : Observation :=
  ⟨s.next.1, s.next.2.lexeme.toList, s.next.2.tokenLocation,
    s.next.2.journal.diagnostics.drop s.journal.diagnostics.length⟩

/-- The scanner after so many calls for a token. -/
def after (s : Scanner) : Nat → Scanner
  | 0 => s
  | n + 1 => s.next.2.after n

/-- What the call after so many calls for a token shows. -/
def stream (s : Scanner) (n : Nat) : Observation := (s.after n).observe

/-- The cursor at which a source is read on by a scanner without a past. -/
def freshCursor (warns : Bool) (f : Source) : Cursor := ⟨f, .empty, f.position, [], warns⟩

/-- What a call shows, and the sources it leaves open, where these sources were open. -/
def outcome (warns : Bool) : List Source → Observation × List Source
  | [] => (⟨.endOfInput, [], ⟨noSource, -1, -1⟩, []⟩, [])
  | f :: outer =>
    match (freshCursor warns f).token with
    | (some kind, c) =>
      (⟨kind, c.lexeme.toList, ⟨c.source.name, c.start.line, c.start.column⟩, c.faults⟩,
        c.source :: outer)
    | (none, c) =>
      match outer with
      | [] =>
        (⟨.endOfInput, c.lexeme.toList, ⟨noSource, c.start.line, c.start.column⟩, c.faults⟩, [])
      | _ :: _ => ((outcome warns outer).1.preceded c.faults, (outcome warns outer).2)

/-- The result of a call on a scanner shows an observation and leaves sources open. -/
structure Shows (s : Scanner) (r : Token.Kind × Scanner) (o : Observation × List Source) :
    Prop where
  kind : r.1 = o.1.kind
  lexeme : r.2.lexeme.toList = o.1.lexeme
  location : r.2.tokenLocation = o.1.location
  diagnostics : r.2.journal.diagnostics = s.journal.diagnostics ++ o.1.diagnostics
  sources : r.2.sources = o.2
  preferences : r.2.preferences = s.preferences

/-- A note changes nothing but the journal, and no diagnostic in it. -/
theorem noteSource_eq (s : Scanner) (e : Diagnostic.Event) :
    ∃ j, s.noteSource e = { s with journal := j } ∧ j.diagnostics = s.journal.diagnostics := by
  unfold noteSource
  split
  · exact ⟨_, rfl, Diagnostic.Journal.diagnostics_note ..⟩
  · exact ⟨_, rfl, rfl⟩

theorem close_eq (s : Scanner) (f : Source) (outer : List Source) :
    ∃ j, s.close f outer = { s with sources := outer, journal := j } ∧
      j.diagnostics = s.journal.diagnostics := by
  obtain ⟨j, h, hj⟩ := noteSource_eq { s with sources := outer }
    ((Diagnostic.Event.trace "Source closed").withFacts
      [("name", f.name), ("lines", toString f.position.line), ("depth", toString outer.length)])
  exact ⟨j, h, hj⟩

/-- Counting a token changes counts and notes only. -/
theorem count_eq (s : Scanner) (kind : Token.Kind) :
    ∃ m b j, s.count kind = { s with metrics := m, endNoted := b, journal := j } ∧
      j.diagnostics = s.journal.diagnostics := by
  unfold count
  dsimp only
  split
  · exact ⟨_, _, _, rfl, Diagnostic.Journal.diagnostics_note ..⟩
  · exact ⟨_, _, _, rfl, rfl⟩

theorem advance_shows (s : Scanner) (sources : List Source) :
    Shows s (s.advance sources) (outcome s.preferences.warnUnrecognized sources) := by
  induction sources generalizing s with
  | nil =>
    exact ⟨rfl, rfl, rfl, (List.append_nil _).symm, rfl, rfl⟩
  | cons f outer ih =>
    have hr : Cursor.Rejoined (s.cursor f) (freshCursor s.preferences.warnUnrecognized f) :=
      ⟨_, _, rfl⟩
    have ht := hr.token
    rcases hc : (s.cursor f).token with ⟨_ | kind, c⟩
    · obtain ⟨d, hd, l, hl, rfl⟩ := ht.exists_eq hc
      obtain ⟨j, hclose, hj⟩ := close_eq (s.settle c) c.source outer
      simp only [advance, outcome, hc, hd]
      cases outer with
      | nil =>
        rw [hclose]
        refine ⟨rfl, hl, rfl, ?_, rfl, rfl⟩
        rw [hj]
        exact Diagnostic.Journal.diagnostics_addDiagnostics ..
      | cons g outer =>
        have hi := ih ((s.settle c).close c.source (g :: outer))
        rw [hclose] at hi ⊢
        refine ⟨hi.kind, hi.lexeme, hi.location, ?_, hi.sources, hi.preferences⟩
        rw [hi.diagnostics, hj]
        simp [settle, Observation.preceded, Cursor.within]
    · obtain ⟨d, hd, l, hl, rfl⟩ := ht.exists_eq hc
      simp only [advance, outcome, hc, hd]
      exact ⟨rfl, hl, rfl, Diagnostic.Journal.diagnostics_addDiagnostics .., rfl, rfl⟩

/-- **What a call shows is decided by the open sources** and by the wish for warnings. -/
theorem next_shows (s : Scanner) :
    Shows s s.next (outcome s.preferences.warnUnrecognized s.sources) := by
  have h := advance_shows s s.sources
  obtain ⟨m, b, j, hc, hj⟩ := count_eq (s.advance s.sources).2 (s.advance s.sources).1
  have hn : s.next = ((s.advance s.sources).1,
      { (s.advance s.sources).2 with metrics := m, endNoted := b, journal := j }) :=
    Prod.ext rfl hc
  rw [hn]
  exact ⟨h.kind, h.lexeme, h.location, hj.trans h.diagnostics, h.sources, h.preferences⟩

/-- A token of the innermost source is shown as it was read. -/
theorem next_of_some {s : Scanner} {f : Source} {outer : List Source} {kind : Token.Kind}
    {c : Cursor} (hs : s.sources = f :: outer)
    (hc : (freshCursor s.preferences.warnUnrecognized f).token = (some kind, c)) :
    Shows s s.next
      (⟨kind, c.lexeme.toList, ⟨c.source.name, c.start.line, c.start.column⟩, c.faults⟩,
        c.source :: outer) := by
  have h := next_shows s
  simp only [hs, outcome, hc] at h
  exact h

theorem observe_eq (s : Scanner) :
    s.observe = (outcome s.preferences.warnUnrecognized s.sources).1 := by
  have h := next_shows s
  unfold observe
  rw [h.kind, h.lexeme, h.location, h.diagnostics, List.drop_left]

theorem sources_next (s : Scanner) :
    s.next.2.sources = (outcome s.preferences.warnUnrecognized s.sources).2 :=
  (next_shows s).sources

@[simp] theorem preferences_next (s : Scanner) : s.next.2.preferences = s.preferences :=
  (next_shows s).preferences

/-- A call adds to the diagnostics and takes none back. -/
theorem diagnostics_next (s : Scanner) :
    s.next.2.journal.diagnostics = s.journal.diagnostics ++ s.observe.diagnostics := by
  rw [(next_shows s).diagnostics, observe_eq]

@[simp] theorem stream_zero (s : Scanner) : s.stream 0 = s.observe := rfl

@[simp] theorem stream_succ (s : Scanner) (n : Nat) : s.stream (n + 1) = s.next.2.stream n := rfl

theorem after_add (s : Scanner) (m n : Nat) : s.after (m + n) = (s.after m).after n := by
  induction m generalizing s with
  | zero => rw [Nat.zero_add, after]
  | succ m ih => rw [Nat.succ_add, after, after, ih]

theorem stream_add (s : Scanner) (m n : Nat) : s.stream (m + n) = (s.after m).stream n := by
  unfold stream
  rw [after_add]

@[simp] theorem preferences_after (s : Scanner) (n : Nat) :
    (s.after n).preferences = s.preferences := by
  induction n generalizing s with
  | zero => rfl
  | succ n ih => rw [after, ih, preferences_next]

/-- **Scanners over equal sources show the same from then on.** -/
theorem stream_congr {s t : Scanner} (hs : s.sources = t.sources)
    (hw : s.preferences.warnUnrecognized = t.preferences.warnUnrecognized) (n : Nat) :
    s.stream n = t.stream n := by
  induction n generalizing s t with
  | zero => rw [stream_zero, stream_zero, observe_eq, observe_eq, hs, hw]
  | succ n ih =>
    rw [stream_succ, stream_succ]
    exact ih (by rw [sources_next, sources_next, hs, hw]) (by simpa using hw)

end Scanner
end ClassIndex
