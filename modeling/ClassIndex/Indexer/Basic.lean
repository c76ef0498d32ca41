/-
# The indexer

The indexer scans a source with everything it imports and declares the classes it meets. It holds
the scanner with the journal, the symbols, and the directories in which imports are searched.
-/

import ClassIndex.Scanner.Weight
import ClassIndex.SearchPath
import ClassIndex.SymbolTable

namespace ClassIndex

/-- Why a run stops early. -/
inductive IndexError where
  | scanner (e : OpenError)
  | imports (e : ImportError)
  | symbols (e : SymbolError)
  | output (message : String)
deriving DecidableEq, Repr

namespace IndexError

/-- The code of the cause. -/
def code : IndexError → String
  | .scanner e => e.code
  | .imports e => e.code
  | .symbols e => e.code
  | .output _ => "E011"

/-- The wording of the cause. -/
def message : IndexError → String
  | .scanner e => "Scanning failed: " ++ e.message
  | .imports e => "Import failed: " ++ e.message
  | .symbols e => "Symbol table failed: " ++ e.message
  | .output message => "Cannot write output: " ++ message

end IndexError

/-- Counts of a run. -/
structure Summary where
  errors : Nat
  warnings : Nat
  tokens : Nat
  symbols : Nat
  sources : Nat
deriving DecidableEq, Repr

namespace Summary

/-- No error was found. -/
def isClean (s : Summary) : Bool := s.errors == 0

/-- The counts that people read. -/
def text (s : Summary) : String := Diagnostic.Journal.countsText s.errors s.warnings

end Summary

/-- The state of an index. -/
structure Indexer where
  scanner : Scanner
  symbols : SymbolTable
  searchPath : SearchPath

namespace Indexer

open Diagnostic (Event Journal)

/-- An index of nothing, which goes on with a journal. -/
def new (preferences : ScanPreferences) (searchPath : SearchPath) (journal : Journal) : Indexer :=
  ⟨.new preferences journal, .empty, searchPath⟩

/-- Everything said so far. -/
def journal (x : Indexer) : Journal := x.scanner.journal

/-- The index with another journal. -/
def withJournal (x : Indexer) (journal : Journal) : Indexer :=
  { x with scanner := { x.scanner with journal } }

/-- The index with one more entry in its journal. -/
def add (x : Indexer) (e : Diagnostic.Entry) : Indexer :=
  { x with scanner := { x.scanner with journal := x.scanner.journal.add e } }

/-- The sources that are open. -/
def sources (x : Indexer) : List Source := x.scanner.sources

/-- The counts of the run. -/
def summary (x : Indexer) : Summary :=
  ⟨x.journal.errors, x.journal.warnings, x.scanner.metrics.tokens, x.symbols.size,
    x.scanner.metrics.sources⟩

/-- The next token. -/
def nextToken (x : Indexer) : Token.Kind × Indexer :=
  let (kind, scanner) := x.scanner.next
  (kind, { x with scanner })

/-- Records a fault where the index is. -/
def report (x : Indexer) (f : Fault) : Indexer := { x with scanner := x.scanner.report f }

/-- Records a fault where the last token started. -/
def reportToken (x : Indexer) (f : Fault) : Indexer :=
  { x with scanner := x.scanner.reportToken f }

/-- Opens the file that a path leads to. -/
def openFile (x : Indexer) (t : FileTree) (path : String) : Except IndexError Unit × Indexer :=
  match x.scanner.openFile t path with
  | (.ok (), scanner) => (.ok (), { x with scanner })
  | (.error e, scanner) => (.error (.scanner e), { x with scanner })

/-- The code of the warning that an import is named with its extension. -/
def redundantExtension : String := "W005"

/-- The note about an import that was found. -/
def foundNote (name path : String) : Event :=
  (Event.trace "Import resolved").withFacts [("name", name), ("path", path)]

/-- What is said about a found import: a note, and a warning if it was named with its
extension. -/
def sayFound (x : Indexer) (name : String) (found : FoundImport) : Indexer :=
  let journal := x.journal.note (foundNote name found.path)
  x.withJournal <|
    if found.redundant then
      journal.warning redundantExtension x.scanner.tokenLocation
        "do not include the file extension for import names"
    else journal

/-- Opens the source that an import names. A name that leads to no source is an error at the
name. -/
def openImport (x : Indexer) (t : FileTree) (name : String) : Except IndexError Unit × Indexer :=
  match x.searchPath.resolve t name with
  | .error e =>
    (.error (.imports e),
      x.withJournal (x.journal.error e.code x.scanner.tokenLocation e.message))
  | .ok found => (x.sayFound name found).openFile t found.path

/-- Declares a class under its own name alone. -/
def declareClass (x : Indexer) (name : String) : Except SymbolError Unit × Indexer :=
  match (x.symbols.beginDecoration.addName name).declare x.journal .newClass with
  | (result, symbols, journal) => (result, { x with symbols }.withJournal journal)

/-- What is left to read, given a bound on what may be opened. -/
def weight (m : Nat) (x : Indexer) : Nat := Scanner.weight m x.sources

@[simp] theorem sources_withJournal (x : Indexer) (journal : Journal) :
    (x.withJournal journal).sources = x.sources := rfl

@[simp] theorem sources_add (x : Indexer) (e : Diagnostic.Entry) :
    (x.add e).sources = x.sources := rfl

@[simp] theorem sources_report (x : Indexer) (f : Fault) : (x.report f).sources = x.sources := rfl

@[simp] theorem sources_reportToken (x : Indexer) (f : Fault) :
    (x.reportToken f).sources = x.sources := rfl

@[simp] theorem sources_declareClass (x : Indexer) (name : String) :
    (x.declareClass name).2.sources = x.sources := by
  unfold declareClass
  generalize (x.symbols.beginDecoration.addName name).declare x.journal .newClass = r
  obtain ⟨_, _, _⟩ := r
  rfl

theorem nextToken_weight (m : Nat) (x : Indexer) :
    (x.nextToken.1 = .endOfInput ∧ x.nextToken.2.sources = []) ∨
      x.nextToken.2.weight m + Scanner.tokenWeight m x.nextToken.2.sources ≤ x.weight m :=
  Scanner.next_weight m x.scanner

theorem openFile_weight {m : Nat} {t : FileTree} (hm : t.largest + 2 ≤ m) (x : Indexer)
    (path : String) :
    (x.openFile t path).2.weight m < x.weight m + Scanner.tokenWeight m x.sources := by
  have h := Scanner.openFile_weight hm x.scanner path
  unfold openFile
  split <;> (rename_i heq; rw [heq] at h; exact h)

theorem openImport_weight {m : Nat} {t : FileTree} (hm : t.largest + 2 ≤ m) (x : Indexer)
    (name : String) :
    (x.openImport t name).2.weight m < x.weight m + Scanner.tokenWeight m x.sources := by
  have hpos : 0 < Scanner.tokenWeight m x.sources := Scanner.tokenWeight_pos (by omega)
  unfold openImport
  split
  · show x.weight m < _; omega
  · rename_i found _
    exact openFile_weight hm (x.sayFound name found) found.path

end Indexer
end ClassIndex
