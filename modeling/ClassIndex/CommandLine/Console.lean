/-
# What the user sees

A journal is shown entry by entry. Diagnostics always go to the error stream, one line each, cut
to 131 characters; notes go out if they are important enough, errors and warnings among them to
the error stream, all others to the output. With structured logs both are JSON.
-/

import ClassIndex.Diagnostic.FileLog
import ClassIndex.Diagnostic.Journal
import ClassIndex.Settings

namespace ClassIndex

/-- What has been written to the two streams. -/
structure Streams where
  out : String := ""
  err : String := ""
deriving DecidableEq, Inhabited, Repr

/-- How entries are shown: in what form, from which level up, and at what time. -/
structure Console where
  structured : Bool
  least : Diagnostic.Level
  time : String
deriving DecidableEq, Repr

/-- A line on the output. -/
def Streams.say (s : Streams) (line : String) : Streams := { s with out := s.out ++ line ++ "\n" }

/-- A line on the error stream. -/
def Streams.complain (s : Streams) (line : String) : Streams :=
  { s with err := s.err ++ line ++ "\n" }

namespace Console

open Diagnostic (Entry Event)

/-- The console that settings ask for. -/
def ofPreferences (p : LogPreferences) (time : String) : Console :=
  ⟨p.structured, Settings.effectiveLevel p, time⟩

/-- The number of characters of a diagnostic that are shown. -/
def lineLimit : Nat := 131

/-- A diagnostic as it is shown. -/
def diagnosticLine (c : Console) (e : Event) : String :=
  if c.structured then (e.json c.time).text else String.ofList (e.line.toList.take lineLimit)

/-- A note as it is shown. -/
def noteLine (c : Console) (e : Event) : String :=
  if c.structured then (e.json c.time).text else e.line

/-- Shows an entry. -/
def showEntry (c : Console) (s : Streams) : Entry → Streams
  | .diagnostic e => s.complain (c.diagnosticLine e)
  | .note e =>
    if e.level.within c.least then
      if e.isError || e.isWarning then s.complain (c.noteLine e) else s.say (c.noteLine e)
    else s
  | .output bytes => { s with out := s.out ++ Text.lossy bytes }

/-- Shows a journal. -/
def showAll (c : Console) (s : Streams) (j : Diagnostic.Journal) : Streams :=
  j.entries.toList.foldl c.showEntry s

/-- The file that stands for diagnostics without one. -/
def unplacedFile : String := "<input>"

/-- Keeps the diagnostics of a journal by file. -/
def fileLog (log : Diagnostic.FileLog) (j : Diagnostic.Journal) : Diagnostic.FileLog :=
  j.diagnostics.foldl (fun log e => log.record (e.file?.getD unplacedFile) e) log

end Console
end ClassIndex
