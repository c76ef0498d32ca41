/-
# What an index records is counted

Everything that an index records is an error or a warning, and so is counted as one of the two
(`recorded_invariant`). A journal counts as errors all that are no warnings; these are then its
events of that level (`errors_eq`).
-/

import ClassIndex.Proofs.Indexer.Invariant
import ClassIndex.Proofs.Scanner.Faults

namespace ClassIndex

open Diagnostic (Event Journal)

namespace Diagnostic

/-- An error or a warning. -/
def Event.Counted (e : Event) : Prop := e.level = .error ∨ e.level = .warning

theorem Event.Counted.isError_eq {e : Event} (h : e.Counted) : e.isError = ! e.isWarning := by
  unfold Event.isError Event.isWarning
  rcases h with h | h <;> rw [h] <;> rfl

/-- A warning is no error. -/
theorem Event.isError_of_isWarning {e : Event} (h : e.isWarning = true) : e.isError = false := by
  rw [isError, eq_of_beq h]
  rfl

/-- An error is no warning. -/
theorem Event.isWarning_of_isError {e : Event} (h : e.isError = true) : e.isWarning = false := by
  rw [isWarning, eq_of_beq h]
  rfl

namespace Journal

/-- **The errors are the events of that level.** -/
theorem errors_eq {j : Journal} (h : ∀ e ∈ j.diagnostics, e.Counted) :
    j.errors = j.diagnostics.countP (·.isError) :=
  List.countP_congr fun e he => by rw [(h e he).isError_eq]

/-- Whatever level is asked for, an error or a warning is recorded. -/
theorem adds_report (j : Journal) (level : Level) (code message : String) (at? : Option Location) :
    j.Adds Event.Counted (j.report level code message at?) := by
  refine adds_add fun e he => ?_
  have hlevel : e.level = if level = .warning then .warning else .error := by
    cases at? <;> exact Option.some.inj he ▸ rfl
  rw [Event.Counted, hlevel]
  split
  · exact .inr rfl
  · exact .inl rfl

end Journal
end Diagnostic

theorem Fault.counted (f : Fault) (l : Location) : (f.event l).Counted := by
  have hlevel : f.level = .error ∨ f.level = .warning := by cases f <;> simp [Fault.level]
  exact hlevel

namespace Indexer

variable {x : Indexer}

theorem openFile_counted (t : FileTree) (path : String) (x : Indexer) :
    x.journal.Adds Event.Counted (x.openFile t path).2.journal := by
  rcases openFile_cases t path x with ⟨bytes, failure?, -, hopen⟩ | ⟨e, hopen⟩
  · rw [hopen]
    exact Journal.adds_of_eq (Scanner.diagnostics_suspend ..)
  · rw [hopen]
    exact x.journal.adds_report .error e.code e.message none

theorem openImport_counted (t : FileTree) (name : String) (x : Indexer) :
    x.journal.Adds Event.Counted (x.openImport t name).2.journal := by
  unfold openImport
  split
  · rename_i e _
    exact x.journal.adds_report .error e.code e.message (some x.scanner.tokenLocation)
  · rename_i found _
    exact (adds_sayFound (fun j => j.adds_report ..) name found).trans
      (openFile_counted t found.path _)

/-- **An index goes on to record what is counted.** -/
theorem recorded_invariant (j : Journal) :
    Invariant fun x => j.Adds Event.Counted x.journal where
  nextToken {x} h := h.trans ((Scanner.next_faults x.scanner).of_faults Fault.counted)
  report {x} f h := h.trans ((x.journal.adds_fault f _).of_faults Fault.counted)
  reportToken {x} f h := h.trans ((x.journal.adds_fault f _).of_faults Fault.counted)
  openFile {x} t path h := h.trans (openFile_counted t path x)
  openImport {x} t name h := h.trans (openImport_counted t name x)
  declareClass {x} name h :=
    h.trans (adds_declareClass (fun j _ _ => j.adds_report ..) x name)
  writeLine {x} _ _ h :=
    h.trans (Journal.adds_of_eq ((x.journal.diagnostics_add _).trans (List.append_nil _)))
  refusal {x} e h := h.trans (x.journal.adds_report .error e.code e.message none)
  note {x} e h := h.trans (Journal.adds_of_eq (x.journal.diagnostics_note e))

end Indexer
end ClassIndex
