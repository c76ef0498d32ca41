/-
# A scan goes on as a new one

Only the bytes that are left decide how a scan goes on. Two sources with the same bytes left, and
the same failure ahead, may be named and placed differently and may have given back what the other
has not read (`Source.Continues`). They are read alike: every reader keeps this relation between
cursors (`Cursor.Resumes.lockstep`), so every call shows the same but for the places
(`Scanner.stream_resembles`). A scan that is stopped anywhere and taken up by a new scanner over
what is left therefore goes on as before (`Scanner.resumed`).

| of a call | is the same |
| --- | --- |
| kind, bytes of the lexeme | yes |
| level, code and message of its diagnostics | yes |
| file, line and column | no: they count from the new beginning |
-/

import ClassIndex.Proofs.Cursor.Begin
import ClassIndex.Proofs.Scanner.Isolation
import ClassIndex.Proofs.Scanner.Progress
import Mathlib.Data.List.Forall2

namespace ClassIndex

/-- What an event says, wherever it is placed. -/
def Diagnostic.Event.gist (e : Diagnostic.Event) : Diagnostic.Level × String × String :=
  (e.level, e.code, e.message)

theorem Fault.gist_event (f : Fault) (l : Location) :
    (f.event l).gist = (f.level, f.code, f.message) := rfl

namespace Source

/-- The failure that is still to come. -/
def pending? (f : Source) : Option String := if f.ended then none else f.failure?

/-- Two sources have the same bytes left to hand out, and the same failure ahead. -/
structure Continues (f g : Source) : Prop where
  rest : f.rest = g.rest
  pending : f.pending? = g.pending?
  exhausted : f.ended = true → f.unread = []
  exhausted' : g.ended = true → g.unread = []

theorem continues_ofBytes (name : String) (bytes : List UInt8) (failure? : Option String) :
    (ofBytes name bytes failure?).Continues (ofBytes name bytes failure?) :=
  ⟨rfl, rfl, nofun, nofun⟩

/-- A source continues as a new one over what it has left. -/
theorem Continues.ofBytes {f : Source} (h : f.Continues f) (name : String) :
    f.Continues (.ofBytes name f.rest f.pending?) :=
  ⟨rfl, rfl, h.exhausted, nofun⟩

/-- Past the last byte, the failure ahead is met once. -/
theorem read_of_rest_nil {f : Source} (h : f.rest = []) :
    f.read = ((match f.pending? with | some message => .failed message | none => .ended),
      { f with ended := true }) := by
  obtain ⟨name, unread, failure?, returned, position, lastColumn, ended⟩ := f
  obtain ⟨rfl, rfl⟩ := List.append_eq_nil_iff.1 h
  cases ended with
  | true => rfl
  | false => cases failure? <;> rfl

/-- A failure is met, or it is still to come. -/
theorem pending_read (f : Source) : f.read.2.pending? = none ∨ f.read.2.pending? = f.pending? := by
  unfold read
  repeat' split
  all_goals first | exact .inr rfl | exact .inl rfl

theorem Continues.giveBack {f g : Source} (h : f.Continues g) (b : UInt8) :
    (f.giveBack b).Continues (g.giveBack b) :=
  ⟨congrArg (b :: ·) h.rest, h.pending, h.exhausted, h.exhausted'⟩

theorem Continues.read {f g : Source} (h : f.Continues g) :
    f.read.1 = g.read.1 ∧ f.read.2.Continues g.read.2 := by
  rcases hrest : f.rest with _ | ⟨b, r⟩
  · have hrest' := h.rest.symm.trans hrest
    rw [read_of_rest_nil hrest, read_of_rest_nil hrest', h.pending]
    exact ⟨rfl, h.rest, rfl, fun _ => (List.append_eq_nil_iff.1 hrest).2,
      fun _ => (List.append_eq_nil_iff.1 hrest').2⟩
  · obtain ⟨returned, unread, hf, hr, -, hend⟩ := read_of_rest hrest h.exhausted
    obtain ⟨returned', unread', hg, hr', -, hend'⟩ :=
      read_of_rest (h.rest.symm.trans hrest) h.exhausted'
    rw [hf, hg]
    exact ⟨rfl, hr.trans hr'.symm, h.pending, hend, hend'⟩

end Source

namespace Cursor

/-- Two cursors are in the middle of the same token, and their sources continue alike. -/
structure Resumes (c d : Cursor) : Prop where
  source : c.source.Continues d.source
  lexeme : c.lexeme.toList = d.lexeme.toList
  faults : c.faults.map (·.gist) = d.faults.map (·.gist)
  warns : c.warns = d.warns

namespace Resumes

variable {c d : Cursor}

theorem report (h : c.Resumes d) (f : Fault) : (c.report f).Resumes (d.report f) :=
  ⟨h.source, h.lexeme, by simp [Cursor.report, h.faults, Fault.gist_event], h.warns⟩

theorem next (h : c.Resumes d) : c.next.1 = d.next.1 ∧ c.next.2.Resumes d.next.2 := by
  obtain ⟨hreading, hsource⟩ := h.source.read
  rcases hc : c.source.read with ⟨x, f⟩
  rcases hd : d.source.read with ⟨y, g⟩
  rw [hc, hd] at hreading hsource
  obtain rfl : x = y := hreading
  have hkept : Cursor.Resumes { c with source := f } { d with source := g } :=
    ⟨hsource, h.lexeme, h.faults, h.warns⟩
  simp only [Cursor.next, hc, hd]
  cases x with
  | byte b => exact ⟨rfl, hkept⟩
  | ended => exact ⟨rfl, hkept⟩
  | failed message => exact ⟨rfl, hkept.report _⟩

theorem giveBack (h : c.Resumes d) (x : Option UInt8) : (c.giveBack x).Resumes (d.giveBack x) := by
  cases x with
  | none => exact h
  | some b => exact ⟨h.source.giveBack b, h.lexeme, h.faults, h.warns⟩

/-- **Every reader keeps this:** none looks at anything else. -/
theorem lockstep : Lockstep Resumes where
  next := next
  giveBack h := by
    obtain ⟨hbyte, hnext⟩ := h.next
    rw [hbyte]
    exact hnext.giveBack _
  giveBackTwo h _ := by
    obtain ⟨hbyte, hnext⟩ := h.next
    obtain ⟨hbyte', hnext'⟩ := hnext.next
    rw [hbyte, hbyte']
    exact (hnext'.giveBack _).giveBack _
  report f _ h := h.report f
  lexeme h := h.lexeme
  keep b h := ⟨h.source, by simp [Cursor.keep, h.lexeme], h.faults, h.warns⟩
  keepAll bs h := ⟨h.source, by simp [Cursor.keepAll, h.lexeme], h.faults, h.warns⟩
  forget h := ⟨h.source, rfl, h.faults, h.warns⟩
  mark h := ⟨h.source, h.lexeme, h.faults, h.warns⟩
  warn b h := by
    unfold warnOf
    rw [h.warns]
    split
    · exact h.report _
    · exact h

end Resumes

end Cursor

/-- Two calls show the same, but for the places. -/
structure Observation.Resembles (o o' : Observation) : Prop where
  kind : o.kind = o'.kind
  lexeme : o.lexeme = o'.lexeme
  diagnostics : o.diagnostics.map (·.gist) = o'.diagnostics.map (·.gist)

namespace Scanner

variable {s t : Scanner} {sources sources' : List Source} {w : Bool}

/-- One call over sources that continue alike shows the same, and leaves such sources. -/
theorem outcome_resembles (h : List.Forall₂ Source.Continues sources sources') :
    (outcome w sources).1.Resembles (outcome w sources').1 ∧
      List.Forall₂ Source.Continues (outcome w sources).2 (outcome w sources').2 := by
  induction h with
  | nil => exact ⟨⟨rfl, rfl, rfl⟩, .nil⟩
  | @cons f g outer outer' hf houter ih =>
    have hcursor : (freshCursor w f).Resumes (freshCursor w g) := ⟨hf, rfl, rfl, rfl⟩
    have hboth := Cursor.Resumes.lockstep.token hcursor
    rcases hc : (freshCursor w f).token with ⟨_ | kind, c⟩
    · obtain ⟨d, hd, hcd⟩ := hboth.exists_eq hc
      cases houter with
      | nil =>
        simp only [outcome, hc, hd]
        exact ⟨⟨rfl, hcd.lexeme, hcd.faults⟩, .nil⟩
      | cons hg houter =>
        rw [outcome_cons_of_none hc (List.cons_ne_nil _ _),
          outcome_cons_of_none hd (List.cons_ne_nil _ _)]
        refine ⟨⟨ih.1.kind, ih.1.lexeme, ?_⟩, ih.2⟩
        simp [Observation.preceded, hcd.faults, ih.1.diagnostics]
    · obtain ⟨d, hd, hcd⟩ := hboth.exists_eq hc
      simp only [outcome, hc, hd]
      exact ⟨⟨rfl, hcd.lexeme, hcd.faults⟩, .cons hcd.source houter⟩

/-- **Scanners over sources that continue alike show the same** from then on. -/
theorem stream_resembles (h : List.Forall₂ Source.Continues s.sources t.sources)
    (hw : s.preferences.warnUnrecognized = t.preferences.warnUnrecognized) (n : Nat) :
    (s.stream n).Resembles (t.stream n) := by
  induction n generalizing s t with
  | zero =>
    rw [stream_zero, stream_zero, observe_eq, observe_eq, hw]
    exact (outcome_resembles h).1
  | succ n ih =>
    rw [stream_succ, stream_succ]
    refine ih ?_ (by simpa using hw)
    rw [sources_next, sources_next, hw]
    exact (outcome_resembles h).2

/-- The calls of a scan leave sources that continue as they did. -/
theorem after_continues (h : List.Forall₂ Source.Continues s.sources s.sources) (k : Nat) :
    List.Forall₂ Source.Continues (s.after k).sources (s.after k).sources := by
  induction k generalizing s with
  | zero => exact h
  | succ k ih =>
    refine ih ?_
    rw [sources_next]
    exact (outcome_resembles h).2

/-- At most one source is open, and a failure that it is still to meet is this one. -/
def Alone (failure? : Option String) (sources : List Source) : Prop :=
  sources = [] ∨ ∃ f : Source, sources = [f] ∧ (f.pending? = none ∨ f.pending? = failure?)

theorem Alone.outcome {failure? : Option String} (w : Bool) (h : Alone failure? sources) :
    Alone failure? (outcome w sources).2 := by
  obtain rfl | ⟨f, rfl, hf⟩ := h
  · exact .inl rfl
  · have hsource : (freshCursor w f).token.2.source.pending? = none ∨
        (freshCursor w f).token.2.source.pending? = failure? :=
      Cursor.source_token (P := fun f => f.pending? = none ∨ f.pending? = failure?)
        (fun f hf => f.pending_read.elim .inl fun hsame => hsame ▸ hf) (fun f b hf => hf) hf
    rcases hc : (freshCursor w f).token with ⟨_ | kind, c⟩
    · exact .inl (by simp only [Scanner.outcome, hc])
    · rw [hc] at hsource
      exact .inr ⟨c.source, (outcome_of_some hc []).2.2, hsource⟩

theorem Alone.after {failure? : Option String} (h : Alone failure? s.sources) (k : Nat) :
    Alone failure? (s.after k).sources := by
  induction k generalizing s with
  | zero => exact h
  | succ k ih =>
    refine ih ?_
    rw [sources_next]
    exact h.outcome _

/-- A source without bytes shows what no source shows, but for the place. -/
theorem outcome_empty (w : Bool) (name : String) :
    (outcome w []).1.Resembles (outcome w [.ofBytes name [] none]).1 ∧
      (outcome w [.ofBytes name [] none]).2 = [] := by
  obtain ⟨d, hd, hpasses⟩ := Cursor.token_nil (c := freshCursor w (.ofBytes name [] none))
    (Source.stands_ofBytes name [] none)
  have hlexeme := Cursor.lexeme_of_token_none hd
  have hfaults : d.faults = [] := hpasses.faults rfl
  simp only [outcome, hd]
  exact ⟨⟨rfl, hlexeme.symm, by rw [hfaults]⟩, trivial⟩

/-- Where no source is open, a new scanner over no bytes shows the same, but for the place. -/
theorem stream_empty {name : String} (hs : s.sources = [])
    (ht : t.sources = [.ofBytes name [] none])
    (hw : s.preferences.warnUnrecognized = t.preferences.warnUnrecognized) (n : Nat) :
    (s.stream n).Resembles (t.stream n) := by
  obtain ⟨hshown, hleft⟩ := outcome_empty t.preferences.warnUnrecognized name
  cases n with
  | zero =>
    rw [stream_zero, stream_zero, observe_eq, observe_eq, hs, ht, hw]
    exact hshown
  | succ n =>
    have hnil : s.next.2.sources = [] := by rw [sources_next, hs, outcome]
    have hnil' : t.next.2.sources = [] := by rw [sources_next, ht, hleft]
    rw [stream_succ, stream_succ,
      stream_congr (hnil.trans hnil'.symm) (by rw [preferences_next, preferences_next, hw])]
    exact ⟨rfl, rfl, rfl⟩

@[simp] theorem preferences_push (s : Scanner) (f : Source) :
    (s.push f).2.preferences = s.preferences := by
  unfold push
  split
  · rfl
  · exact preferences_suspend s f

/-- The bytes that the source being read has left. -/
def left (s : Scanner) : List UInt8 := (s.sources.head?.map (·.rest)).getD []

/-- The failure that the source being read is still to meet. -/
def pending? (s : Scanner) : Option String := s.sources.head?.bind (·.pending?)

/-- **A scan goes on as a new one over what is left.** After any number of calls over a source, all
further calls show what a new scanner over the bytes left shows, but for the places. That scanner
meets a failure at the end only if the source had one that has not been met. -/
theorem resumed (preferences : ScanPreferences) (journal journal' : Diagnostic.Journal)
    (name name' : String) (bytes : List UInt8) (failure? : Option String) (k : Nat) :
    let s := ((new preferences journal).push (.ofBytes name bytes failure?)).2.after k
    let fresh := ((new preferences journal').push (.ofBytes name' s.left s.pending?)).2
    (s.pending? = none ∨ s.pending? = failure?) ∧ ∀ n, (s.stream n).Resembles (fresh.stream n) := by
  intro s fresh
  have hopen := sources_push_new preferences journal (.ofBytes name bytes failure?)
  have hfresh : fresh.sources = [.ofBytes name' s.left s.pending?] := sources_push_new ..
  have hcontinues : List.Forall₂ Source.Continues s.sources s.sources := by
    refine after_continues ?_ k
    rw [hopen]
    exact .cons (Source.continues_ofBytes ..) .nil
  have halone : Alone failure? s.sources := by
    refine Alone.after ?_ k
    rw [hopen]
    exact .inr ⟨_, rfl, .inr rfl⟩
  have hw : s.preferences.warnUnrecognized = fresh.preferences.warnUnrecognized := by
    rw [preferences_after, preferences_push, preferences_push]
    rfl
  obtain hs | ⟨f, hs, hf⟩ := halone
  · have hnone : s.pending? = none := by rw [pending?, hs]; rfl
    have hleft : s.left = [] := by rw [left, hs]; rfl
    rw [hleft, hnone] at hfresh
    exact ⟨.inl hnone, stream_empty hs hfresh hw⟩
  · rw [hs] at hcontinues
    have hf' := (List.forall₂_cons.1 hcontinues).1
    refine ⟨by simpa [pending?, hs] using hf, stream_resembles ?_ hw⟩
    rw [hs, hfresh, left, pending?, hs]
    exact .cons (hf'.ofBytes name') .nil

end Scanner
end ClassIndex
