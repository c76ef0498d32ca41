/-
# Warnings of unknown bytes

A byte that begins no token is passed over, and warned of if that is wanted. A scanner that does not
warn goes through its sources step by step as one that does (`Cursor.hushed_lockstep`):

| step of a reader | one that warns | one that does not |
| --- | --- | --- |
| a byte that begins no token | passed over, `E020` reported | passed over |
| any other fault | reported | reported |
| a byte read, given back, kept or forgotten | the same | the same |

So however sources are opened and tokens called for, both give the same tokens at the same places
and count the same, and the diagnostics of the one are those of the other but for the warnings of
unknown bytes (`run_hushed`).
-/

import ClassIndex.Proofs.Scanner.Nesting

namespace ClassIndex

open Diagnostic (Event Journal)

namespace Diagnostic

/-- The warning of a byte that begins no token. -/
def Event.isUnrecognized (e : Event) : Bool := e.isWarning && e.code == "E020"

/-- The events of a row that are no warnings of unknown bytes. -/
def hushed (events : List Event) : List Event := events.filter (! ·.isUnrecognized)

@[simp] theorem hushed_append (events later : List Event) :
    hushed (events ++ later) = hushed events ++ hushed later :=
  List.filter_append ..

end Diagnostic

open Diagnostic (hushed hushed_append)

theorem Fault.isUnrecognized_event (f : Fault) (l : Location) :
    (f.event l).isUnrecognized = f.isUnrecognized := by
  cases f <;> rfl

/-- A fault that is told in any case is not hushed up. -/
theorem Fault.hushed_event {f : Fault} (hf : f.isUnrecognized = false) (l : Location) :
    hushed [f.event l] = [f.event l] := by
  simp [hushed, isUnrecognized_event, hf]

/-! ## One token -/

namespace Cursor

/-- The cursor of a reader that does not warn of unknown bytes, and has not warned of any. -/
def hushed (c : Cursor) : Cursor :=
  { c with warns := false, faults := Diagnostic.hushed c.faults }

variable {f : Fault}

theorem report_hushed (hf : f.isUnrecognized = false) (c : Cursor) :
    c.hushed.report f = (c.report f).hushed := by
  simp only [report, hushed, hushed_append, Fault.hushed_event hf]

theorem warnOf_hushed (b : UInt8) (c : Cursor) : c.hushed.warnOf b = (c.warnOf b).hushed := by
  have hsilent : c.hushed.warnOf b = c.hushed := if_neg Bool.false_ne_true
  have hdropped (l : Location) : Diagnostic.hushed [(Fault.unrecognized b).event l] = [] := rfl
  rw [hsilent]
  unfold warnOf
  split
  · simp only [report, hushed, hushed_append, hdropped, List.append_nil]
  · rfl

theorem next_hushed (c : Cursor) : c.hushed.next = (c.next.1, c.next.2.hushed) := by
  rcases hread : c.source.read with ⟨b | _ | message, source⟩
  · simp only [next, hushed, hread]
  · simp only [next, hushed, hread]
  · have hreport := report_hushed (f := .readFailure message) rfl { c with source }
    simp only [next, show c.hushed.source = c.source from rfl, hread]
    exact congrArg (Prod.mk none) hreport

theorem giveBack_hushed (c : Cursor) (x : Option UInt8) :
    c.hushed.giveBack x = (c.giveBack x).hushed := by
  cases x <;> rfl

/-- **Every reader does the same whether it warns or not.** -/
theorem hushed_lockstep : Lockstep fun c d => d = c.hushed where
  next := by
    rintro c _ rfl
    rw [next_hushed]
    exact ⟨rfl, rfl⟩
  giveBack := by
    rintro c _ rfl
    rw [next_hushed, giveBack_hushed]
  giveBackTwo := by
    rintro c _ rfl -
    simp only [next_hushed, giveBack_hushed]
  report := by
    rintro c _ f hf rfl
    exact report_hushed hf c
  lexeme := by
    rintro c _ rfl
    rfl
  keep := by
    rintro c _ b rfl
    rfl
  keepAll := by
    rintro c _ bs rfl
    rfl
  forget := by
    rintro c _ rfl
    rfl
  mark := by
    rintro c _ rfl
    rfl
  warn := by
    rintro c _ b rfl
    exact warnOf_hushed b c

theorem token_hushed (c : Cursor) : c.hushed.token = (c.token.1, c.token.2.hushed) :=
  have h := hushed_lockstep.token (c := c) rfl
  Prod.ext h.1.symm h.2

end Cursor

/-! ## One call -/

/-- The observation without warnings of unknown bytes. -/
def Observation.hushed (o : Observation) : Observation :=
  { o with diagnostics := Diagnostic.hushed o.diagnostics }

namespace Scanner

theorem outcome_hushed (w : Bool) (sources : List Source) :
    outcome false sources = ((outcome w sources).1.hushed, (outcome w sources).2) := by
  induction sources with
  | nil => rfl
  | cons f outer ih =>
    have htoken : (freshCursor false f).token
        = ((freshCursor w f).token.1, (freshCursor w f).token.2.hushed) :=
      Cursor.token_hushed (freshCursor w f)
    rcases hc : (freshCursor w f).token with ⟨_ | kind, c⟩
    · rw [hc] at htoken
      cases outer with
      | nil =>
        simp only [outcome, hc, htoken]
        rfl
      | cons g outer =>
        rw [outcome_cons_of_none htoken (List.cons_ne_nil _ _),
          outcome_cons_of_none hc (List.cons_ne_nil _ _), ih]
        refine Prod.ext ?_ rfl
        simp only [Observation.preceded, Observation.hushed, Cursor.hushed, hushed_append]
    · rw [hc] at htoken
      simp only [outcome, hc, htoken]
      rfl

/-- The answer without warnings of unknown bytes. -/
def Answer.hushed : Answer → Answer
  | .opened result => .opened result
  | .token shown => .token shown.hushed

/-- Two scanners read the same sources and have counted the same, the second without warning of
unknown bytes. Since they had recorded these rows, the one has recorded what the other has, but for
such warnings. -/
structure Hushes (before before' : List Event) (s t : Scanner) : Prop where
  sources : t.sources = s.sources
  metrics : t.metrics = s.metrics
  silent : t.preferences.warnUnrecognized = false
  diagnostics : ∃ events, s.journal.diagnostics = before ++ events ∧
    t.journal.diagnostics = before' ++ hushed events

namespace Hushes

variable {before before' : List Event} {s t : Scanner}

theorem depth (h : Hushes before before' s t) : s.depth = t.depth :=
  congrArg List.length h.sources.symm

theorem suspend (h : Hushes before before' s t) (f : Source) :
    Hushes before before' (s.suspend f) (t.suspend f) where
  sources := by rw [sources_suspend, sources_suspend, h.sources]
  metrics := by rw [metrics_suspend, metrics_suspend, h.metrics, h.depth]
  silent := by rw [preferences_suspend, h.silent]
  diagnostics := by
    rw [diagnostics_suspend, diagnostics_suspend]
    exact h.diagnostics

/-- A refusal is no warning. -/
theorem refuse (h : Hushes before before' s t) (e : OpenError) :
    Hushes before before' (s.refuse e).2 (t.refuse e).2 where
  sources := h.sources
  metrics := h.metrics
  silent := h.silent
  diagnostics := by
    obtain ⟨events, hs, ht⟩ := h.diagnostics
    let refusal : Event := ⟨.error, e.code, e.message, none, []⟩
    have hrefuse (s : Scanner) :
        (s.refuse e).2.journal.diagnostics = s.journal.diagnostics ++ [refusal] :=
      Journal.diagnostics_add ..
    have hkept : hushed [refusal] = [refusal] := rfl
    refine ⟨events ++ [refusal], ?_, ?_⟩
    · rw [hrefuse, hs, List.append_assoc]
    · rw [hrefuse, ht, hushed_append, hkept, List.append_assoc]

theorem observe (h : Hushes before before' s t) : t.observe = s.observe.hushed := by
  rw [observe_eq, observe_eq, h.silent, h.sources,
    outcome_hushed s.preferences.warnUnrecognized]

theorem next (h : Hushes before before' s t) : Hushes before before' s.next.2 t.next.2 where
  sources := by
    rw [sources_next, sources_next, h.silent, h.sources,
      outcome_hushed s.preferences.warnUnrecognized]
  metrics := by
    have hkind : t.next.1 = s.next.1 := congrArg Observation.kind h.observe
    rw [metrics_next, metrics_next, h.metrics, hkind]
  silent := by rw [preferences_next, h.silent]
  diagnostics := by
    obtain ⟨events, hs, ht⟩ := h.diagnostics
    refine ⟨events ++ s.observe.diagnostics, ?_, ?_⟩
    · rw [diagnostics_next, hs, List.append_assoc]
    · rw [diagnostics_next, ht, h.observe, hushed_append, List.append_assoc]
      rfl

/-- **One call** is answered alike, but for the warnings, and leaves both alike. -/
theorem answer (h : Hushes before before' s t) (call : Call) :
    (t.answer call).1 = (s.answer call).1.hushed ∧
      Hushes before before' (s.answer call).2 (t.answer call).2 := by
  rcases answers_of_depth_eq h.depth call with ⟨f, hs, ht⟩ | ⟨e, hs, ht⟩ | rfl
  · rw [hs, ht]
    exact ⟨rfl, h.suspend f⟩
  · rw [hs, ht]
    exact ⟨rfl, h.refuse e⟩
  · exact ⟨congrArg Answer.token h.observe, h.next⟩

theorem run (h : Hushes before before' s t) (calls : List Call) :
    (t.run calls).1 = (s.run calls).1.map Answer.hushed ∧
      Hushes before before' (s.run calls).2 (t.run calls).2 := by
  induction calls generalizing s t with
  | nil => exact ⟨rfl, h⟩
  | cons call calls ih =>
    obtain ⟨hanswer, hafter⟩ := h.answer call
    obtain ⟨hanswers, hend⟩ := ih hafter
    rw [Scanner.run, Scanner.run, List.map_cons, hanswer, hanswers]
    exact ⟨rfl, hend⟩

end Hushes

/-! ## Any calls -/

/-- **The wish for warnings of unknown bytes changes nothing but these warnings.** However sources
are opened and tokens called for, two scanners that differ in this wish, and perhaps in what they
note, give the same answers: they open the same sources and refuse the same for the same cause, and
show tokens of the same kinds with the same lexemes at the same places. Their counts and their open
sources are the same, and the diagnostics of the one that does not warn, of each call and of all
together, are those of the other in order without the warnings of unknown bytes. -/
theorem run_hushed (notes notes' : Bool) (journal journal' : Journal) (calls : List Call) :
    let r := (new ⟨true, notes⟩ journal).run calls
    let r' := (new ⟨false, notes'⟩ journal').run calls
    r'.1 = r.1.map Answer.hushed ∧
      r'.2.metrics = r.2.metrics ∧
      r'.2.sources = r.2.sources ∧
      ∃ events, r.2.journal.diagnostics = journal.diagnostics ++ events ∧
        r'.2.journal.diagnostics = journal'.diagnostics ++ hushed events := by
  intro r r'
  have hnew : Hushes journal.diagnostics journal'.diagnostics (new ⟨true, notes⟩ journal)
      (new ⟨false, notes'⟩ journal') := by
    refine ⟨rfl, rfl, rfl, [], ?_, ?_⟩
    · exact (List.append_nil _).symm
    · exact (List.append_nil _).symm
  obtain ⟨hanswers, hend⟩ := hnew.run calls
  exact ⟨hanswers, hend.metrics, hend.sources, hend.diagnostics⟩

end Scanner
end ClassIndex
