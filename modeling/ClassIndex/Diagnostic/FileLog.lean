/-
# Events by file

Events are also kept file by file, in the order of the files' paths. A file keeps its first
thousand events; the next one leaves a single warning in its place, and no later one leaves a
trace. Paths are compared part by part: repeated and trailing slashes and inner single dots do
not count, and the first spelling of a path is the one shown.
-/

import ClassIndex.Diagnostic.Event
import ClassIndex.Text.Blank
import ClassIndex.Token.Word

namespace ClassIndex
namespace Diagnostic

/-- A part of a path. -/
inductive PathPart where
  | root
  | here
  | up
  | named (name : String)
deriving DecidableEq, Repr

namespace PathPart

/-- The order of parts: the root, the directory itself, the one above, then names by bytes. -/
def compare : PathPart → PathPart → Ordering
  | .named a, .named b => Token.compareBytes (Text.utf8 a) (Text.utf8 b)
  | a, b => Ord.compare a.ctorIdx b.ctorIdx

end PathPart

/-- The parts of a path. -/
def pathParts (path : String) : List PathPart :=
  let pieces := Text.splitAt '/' path.toList
  let named (piece : List Char) : Option PathPart :=
    if piece = [] || piece = ['.'] then none
    else if piece = ['.', '.'] then some .up
    else some (.named (String.ofList piece))
  let opening : List PathPart := match pieces with
    | [] :: _ :: _ => [.root]
    | ['.'] :: _ => [.here]
    | _ => []
  opening ++ pieces.filterMap named

/-- The order of paths: the first difference decides, else the shorter comes first. -/
def comparePaths : List PathPart → List PathPart → Ordering
  | [], [] => .eq
  | [], _ :: _ => .lt
  | _ :: _, [] => .gt
  | a :: s, b :: t => match a.compare b with
    | .eq => comparePaths s t
    | o => o

/-- The events kept for one file, under its first spelling. -/
structure FileEvents where
  path : String
  events : Array Event

/-- The files in the order of their paths. -/
structure FileLog where
  files : List FileEvents

namespace FileLog

/-- A log without files. -/
def empty : FileLog := ⟨[]⟩

instance : Inhabited FileLog := ⟨empty⟩

/-- The number of events kept for a file. -/
def limit : Nat := 1000

/-- The warning that stands for the events beyond the limit. -/
def overflow : Event :=
  ⟨.warning, "ERR001", "Too many events for file (limit: " ++ toString limit ++ ")", none, []⟩

/-- The events of a file after one more. -/
def keep (events : Array Event) (e : Event) : Array Event :=
  if events.size < limit then events.push e
  else if events.size = limit then events.push overflow
  else events

/-- Keeps an event among files in the order of their paths. -/
def recordIn (files : List FileEvents) (path : String) (e : Event) : List FileEvents :=
  match files with
  | [] => [⟨path, keep #[] e⟩]
  | f :: rest =>
    match comparePaths (pathParts path) (pathParts f.path) with
    | .eq => ⟨f.path, keep f.events e⟩ :: rest
    | .lt => ⟨path, keep #[] e⟩ :: f :: rest
    | .gt => f :: recordIn rest path e

/-- Keeps an event for a file. -/
def record (log : FileLog) (path : String) (e : Event) : FileLog :=
  ⟨recordIn log.files path e⟩

end FileLog

namespace FileEvents

/-- The number of errors kept. -/
def errors (f : FileEvents) : Nat := f.events.toList.countP (·.isError)

/-- The number of warnings kept. -/
def warnings (f : FileEvents) : Nat := f.events.toList.countP (·.isWarning)

end FileEvents

/-- Counts over all files. -/
structure FileTotals where
  files : Nat
  clean : Nat
  failed : Nat
  warned : Nat
  errors : Nat
  warnings : Nat
deriving DecidableEq, Repr

namespace FileLog

/-- The counts: a file with an error has failed, another with a warning is warned, else clean. -/
def totals (log : FileLog) : FileTotals where
  files := log.files.length
  clean := log.files.countP fun f => f.errors = 0 && f.warnings = 0
  failed := log.files.countP fun f => 0 < f.errors
  warned := log.files.countP fun f => f.errors = 0 && 0 < f.warnings
  errors := log.files.foldl (fun n f => n + f.errors) 0
  warnings := log.files.foldl (fun n f => n + f.warnings) 0

/-- The report's lines for one event of a file. -/
def eventReport (path : String) (e : Event) : String :=
  let place := match e.span with
    | some s => " --> " ++ path ++ ":" ++ s.start.text
    | none => ""
  let action := actionOf e.code
  (if e.isError then "error" else "warning") ++ "[" ++ e.code ++ "]: " ++ e.message ++ place ++ "\n"
    ++ (if e.isError then
          "  = severity: " ++ (severityOf e.code).text ++ ", category: " ++ categoryOf e.code
            ++ "\n"
            ++ (if action = unknownAction then "" else "  = help: " ++ action ++ "\n")
        else "")

/-- The report's part for one file; nothing for a file without errors and warnings. -/
def fileReport (f : FileEvents) : String :=
  match f.events.toList.filter fun e => e.isError || e.isWarning with
  | [] => ""
  | events =>
    "Checking " ++ f.path ++ "...\n" ++ String.join (events.map (eventReport f.path)) ++ "\n"

/-- The report over all files, with the totals that are not zero. -/
def report (log : FileLog) : String :=
  let totals := log.totals
  String.join (log.files.map fileReport)
    ++ (if 0 < totals.errors then "Total errors: " ++ toString totals.errors ++ "\n" else "")
    ++ (if 0 < totals.warnings then "Total warnings: " ++ toString totals.warnings ++ "\n" else "")

end FileLog
end Diagnostic
end ClassIndex
