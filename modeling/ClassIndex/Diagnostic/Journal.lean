/-
# The journal of a run

Whatever a run has to say is one entry of its journal, in order: a diagnostic, which is counted
and shown to the user; a note about the run's progress; or a piece of the output asked for.
-/

import ClassIndex.Diagnostic.Event

namespace ClassIndex
namespace Diagnostic

/-- One thing a run says. -/
inductive Entry where
  | diagnostic (event : Event)
  | note (event : Event)
  | output (bytes : List UInt8)

/-- The diagnostic that an entry is. -/
def Entry.diagnostic? : Entry → Option Event
  | .diagnostic e => some e
  | _ => none

/-- The output that an entry holds. -/
def Entry.outputBytes : Entry → List UInt8
  | .output bytes => bytes
  | _ => []

/-- Everything said so far, the oldest first. -/
structure Journal where
  entries : Array Entry

namespace Journal

/-- A journal without entries. -/
def empty : Journal := ⟨#[]⟩

instance : Inhabited Journal := ⟨empty⟩

/-- Adds one entry. -/
def add (j : Journal) (e : Entry) : Journal := ⟨j.entries.push e⟩

/-- Adds a row of diagnostics. -/
def addDiagnostics (j : Journal) (events : List Event) : Journal :=
  events.foldl (fun j e => j.add (.diagnostic e)) j

/-- Adds a note. -/
def note (j : Journal) (e : Event) : Journal := j.add (.note e)

/-- The diagnostics in order. -/
def diagnostics (j : Journal) : List Event := j.entries.toList.filterMap Entry.diagnostic?

@[simp] theorem diagnostics_add (j : Journal) (e : Entry) :
    (j.add e).diagnostics = j.diagnostics ++ e.diagnostic?.toList := by
  cases h : e.diagnostic? <;> simp [diagnostics, add, h]

@[simp] theorem diagnostics_note (j : Journal) (e : Event) :
    (j.note e).diagnostics = j.diagnostics := by
  simp [note, Entry.diagnostic?]

@[simp] theorem diagnostics_addDiagnostics (j : Journal) (events : List Event) :
    (j.addDiagnostics events).diagnostics = j.diagnostics ++ events := by
  induction events generalizing j with
  | nil => simp [addDiagnostics]
  | cons e es ih =>
    have := ih (j.add (.diagnostic e))
    simp_all [addDiagnostics, Entry.diagnostic?]

/-- The number of errors. -/
def errors (j : Journal) : Nat := j.diagnostics.countP (! ·.isWarning)

/-- The number of warnings. -/
def warnings (j : Journal) : Nat := j.diagnostics.countP (·.isWarning)

/-- Some error requires a halt. -/
def hasFatal (j : Journal) : Bool := j.diagnostics.any (·.isFatal)

/-- The counts in words. -/
def countsText (errors warnings : Nat) : String :=
  "errors: " ++ toString errors ++ " warnings: " ++ toString warnings

/-- The journal's counts in words. -/
def summary (j : Journal) : String := countsText j.errors j.warnings

/-- Records a problem; all that is not a warning counts as an error. -/
def report (j : Journal) (level : Level) (code message : String) (at? : Option Location) :
    Journal :=
  let event : Event := ⟨if level = .warning then .warning else .error, code, message, none, []⟩
  j.add (.diagnostic (match at? with | some l => event.located l | none => event))

/-- Records an error at a location. -/
def error (j : Journal) (code : String) (l : Location) (message : String) : Journal :=
  j.report .error code message (some l)

/-- Records a warning at a location. -/
def warning (j : Journal) (code : String) (l : Location) (message : String) : Journal :=
  j.report .warning code message (some l)

/-- Records an error that belongs to no place. -/
def unplaced (j : Journal) (code message : String) : Journal := j.report .error code message none

end Journal
end Diagnostic
end ClassIndex
