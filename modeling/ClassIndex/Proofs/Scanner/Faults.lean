/-
# A call for a token records faults

Whatever a reader reports is a fault at a place (`Cursor.faults_lockstep`), so a call for a token
records nothing else (`Scanner.next_faults`). What holds of every fault holds of everything that a
scanner records by itself.
-/

import ClassIndex.Proofs.Scanner.Located

namespace ClassIndex

open Diagnostic (Event Journal)

/-- An event that tells of a fault. -/
def Diagnostic.Event.IsFault (e : Event) : Prop := ∃ (f : Fault) (l : Location), e = f.event l

namespace Diagnostic.Journal

variable {P : Event → Prop} {j j' : Journal}

/-- Recording a fault adds a fault. -/
theorem adds_fault (j : Journal) (f : Fault) (l : Location) :
    j.Adds Event.IsFault (j.addDiagnostics [f.event l]) :=
  ⟨_, diagnostics_addDiagnostics .., List.forall_mem_singleton.2 ⟨f, l, rfl⟩⟩

/-- What holds of all faults holds of what was added. -/
theorem Adds.of_faults (h : j.Adds Event.IsFault j') (hP : ∀ (f : Fault) l, P (f.event l)) :
    j.Adds P j' :=
  h.mono fun _ ⟨f, l, he⟩ => he ▸ hP f l

end Diagnostic.Journal

namespace Cursor

/-- Every reader reports faults only. -/
theorem faults_lockstep : Lockstep (Same fun c => ∀ e ∈ c.faults, e.IsFault) :=
  Same.faults (fun events => ∀ e ∈ events, e.IsFault) fun f l h =>
    List.forall_mem_append.2 ⟨h, List.forall_mem_singleton.2 ⟨f, l, rfl⟩⟩

end Cursor

namespace Scanner

theorem outcome_faults (warns : Bool) (sources : List Source) :
    ∀ e ∈ (outcome warns sources).1.diagnostics, e.IsFault := by
  induction sources with
  | nil => exact List.forall_mem_nil _
  | cons f outer ih =>
    have hc := (Cursor.faults_lockstep.token
      (c := freshCursor warns f) ⟨rfl, List.forall_mem_nil _⟩).2.2
    rcases htoken : (freshCursor warns f).token with ⟨_ | kind, c⟩
    all_goals rw [htoken] at hc
    · cases outer with
      | nil =>
        simp only [outcome, htoken]
        exact hc
      | cons g outer =>
        rw [outcome_cons_of_none htoken (List.cons_ne_nil _ _)]
        exact List.forall_mem_append.2 ⟨hc, ih⟩
    · simp only [outcome, htoken]
      exact hc

/-- **A call for a token records faults only.** -/
theorem next_faults (s : Scanner) : s.journal.Adds Event.IsFault s.next.2.journal :=
  ⟨_, (next_shows s).diagnostics, outcome_faults _ _⟩

end Scanner
end ClassIndex
