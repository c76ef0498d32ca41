/-
# Malformed tokens are counted as errors

A call for a token may close several sources and pass over comments and unknown bytes before it
comes to its answer. Whatever it has met there, it records one diagnostic of a malformed token if
its answer is one, and none if it is not (`observe_malformed`). So the errors of a journal grow by
at least the number of malformed tokens that calls have answered with (`errors_after`).
-/

import ClassIndex.Proofs.Cursor.Malformed
import ClassIndex.Proofs.Scanner.Faults

namespace ClassIndex

open Cursor (errorsOf)

theorem Diagnostic.Event.IsFault.isWarning_eq {e : Event} (h : e.IsFault)
    (hmalformed : e.isMalformed = true) : e.isWarning = false := by
  obtain ⟨f, l, rfl⟩ := h
  change f.isMalformed = true at hmalformed
  cases f with
  | unrecognized => simp [Fault.isMalformed, Fault.code, malformedCodes] at hmalformed
  | emptyEscape => simp [Fault.isMalformed, Fault.code, malformedCodes] at hmalformed
  | _ => rfl

namespace Scanner

theorem outcome_malformed (warns : Bool) (sources : List Source) :
    (outcome warns sources).1.diagnostics.countP (·.isMalformed) =
      errorsOf (some (outcome warns sources).1.kind) := by
  induction sources with
  | nil => rfl
  | cons f outer ih =>
    have hc := Cursor.malformed_token (freshCursor warns f)
    rw [show (freshCursor warns f).malformed = 0 from rfl, Nat.zero_add, Cursor.malformed] at hc
    rcases htoken : (freshCursor warns f).token with ⟨_ | kind, c⟩
    all_goals rw [htoken] at hc
    · cases outer with
      | nil =>
        simp only [outcome, htoken]
        exact hc
      | cons g outer =>
        rw [outcome_cons_of_none htoken (List.cons_ne_nil _ _)]
        rw [Observation.preceded, List.countP_append, hc, ih]
        exact Nat.zero_add _
    · simp only [outcome, htoken]
      exact hc

/-- **A call records one malformed token if it answers with one,** and none if it does not. -/
theorem observe_malformed (s : Scanner) :
    s.observe.diagnostics.countP (·.isMalformed) = if s.next.1 = .error then 1 else 0 := by
  have hkind : s.next.1 = s.observe.kind := rfl
  rw [hkind, observe_eq, outcome_malformed]
  simp only [errorsOf, Option.some.injEq]

/-- A malformed token is counted as an error. -/
theorem errors_next (s : Scanner) :
    s.journal.errors + (if s.next.1 = .error then 1 else 0) ≤ s.next.2.journal.errors := by
  have hfaults : ∀ e ∈ s.observe.diagnostics, e.IsFault := by
    rw [observe_eq]
    exact outcome_faults _ _
  rw [Diagnostic.Journal.errors, Diagnostic.Journal.errors, diagnostics_next, List.countP_append,
    ← observe_malformed]
  refine Nat.add_le_add_left (List.countP_mono_left fun e he hmalformed => ?_) _
  rw [(hfaults e he).isWarning_eq hmalformed]
  rfl

/-- **Calls add as many errors as they answer with malformed tokens,** or more. -/
theorem errors_after (s : Scanner) (n : Nat) :
    s.journal.errors + ((List.range n).map fun k => (s.stream k).kind).count .error
      ≤ (s.after n).journal.errors := by
  induction n generalizing s with
  | zero => exact Nat.le_refl _
  | succ n ih =>
    have hnext := errors_next s
    have hrest := ih s.next.2
    have hcount : ((List.range (n + 1)).map fun k => (s.stream k).kind).count .error =
        (if s.next.1 = .error then 1 else 0)
          + ((List.range n).map fun k => (s.next.2.stream k).kind).count .error := by
      rw [List.range_succ_eq_map, List.map_cons, List.map_map, List.count_cons, Nat.add_comm]
      simp only [beq_iff_eq]
      rfl
    rw [hcount, after]
    omega

end Scanner
end ClassIndex
