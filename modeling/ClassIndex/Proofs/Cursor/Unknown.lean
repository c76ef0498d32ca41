/-
# Bytes that begin no token

Each unknown byte of a row is warned of by itself (`token_unknowns`), and a comment without an end
is one fault (`token_unended`). Both are told of under the name of the source.
-/

import ClassIndex.Proofs.Cursor.Begin

namespace ClassIndex

open Diagnostic (Event)

theorem Fault.file?_event (f : Fault) (l : Location) : (f.event l).file? = some l.file := rfl

namespace Cursor

variable {text r : List UInt8} {b : UInt8} {c : Cursor}

/-- **Each unknown byte of a row has its own warning,** if warnings are wanted. -/
theorem token_unknowns (hb : unknown b = true) (n : Nat) (hwarns : c.warns = true)
    (hf : c.source.failure? = none) (h : c.source.Stands text (List.replicate n b ++ r)) :
    ∃ (d : Cursor) (ws : List Event), c.token = d.token ∧ d.source.Stands text r ∧
      d.source.name = c.source.name ∧ d.source.failure? = none ∧ d.faults = c.faults ++ ws ∧
      ws.length = n ∧ ∀ e ∈ ws, e.isWarning = true ∧ e.file? = some c.source.name := by
  induction n generalizing c with
  | zero => exact ⟨c, [], rfl, h, rfl, hf, (List.append_nil _).symm, rfl, List.forall_mem_nil _⟩
  | succ n ih =>
    obtain ⟨d, hd, hs, hpass⟩ := token_unknown hb h
    have hwarn : d.warnOf b = d.report (.unrecognized b) := if_pos (hpass.warns.trans hwarns)
    rw [hwarn] at hd
    obtain ⟨e, ws, he, hse, hname, hfailure, hfaults, hlength, hws⟩ :=
      ih (c := d.report (.unrecognized b)) (hpass.warns.trans hwarns) (hpass.failure.trans hf) hs
    have hname' : (d.report (.unrecognized b)).source.name = c.source.name := hpass.name
    rw [hname'] at hname hws
    refine ⟨e, (Fault.unrecognized b).event d.source.location :: ws, hd.trans he, hse, hname,
      hfailure, ?_, congrArg (· + 1) hlength, List.forall_mem_cons.2 ⟨⟨rfl, ?_⟩, hws⟩⟩
    · rw [hfaults, report, hpass.faults hf, List.append_assoc]
      rfl
    · exact (Fault.file?_event ..).trans (congrArg some hpass.name)

/-- **A comment without an end is a fault** of its source. -/
theorem token_unended (hf : c.source.failure? = none) (h : c.source.Stands text [0x2f, 0x2a]) :
    ∃ d l, c.token = (none, d) ∧ l.file = c.source.name ∧
      d.faults = c.faults ++ [Fault.unterminatedComment.event l] := by
  obtain ⟨d, hd, hs, hpass, -⟩ := begin_next (by decide) h
  obtain ⟨e, he, hse, -⟩ := next_cons hs
  obtain ⟨e', he', hse'⟩ := next_nil hse
  have hpe : d.Passes e' := by
    have h₁ := d.passes_next
    have h₂ := e.passes_next
    rw [he] at h₁
    rw [he'] at h₂
    exact h₁.trans h₂
  have hpass' := hpass.trans hpe
  obtain ⟨k, hk, hpk⟩ := token_nil (c := e'.report .unterminatedComment) hse'
  refine ⟨k, e'.source.location, ?_, hpass'.name, ?_⟩
  · have hblock : (e.skipBlock false).2 = e'.report .unterminatedComment := by
      rw [skipBlock_eq, he']
    rw [token_eq, hd]
    simpa [piece, slash, he, hblock] using hk
  · rw [hpk.faults (hpass'.failure.trans hf), report, hpass'.faults hf]

end Cursor
end ClassIndex
