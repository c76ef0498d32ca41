/-
# The scanner

The scanner holds a stack of open sources. Opening a source suspends the one being read until the
new one has ended; a token never takes bytes of two sources. At most fifteen sources are open at
a time.

| code | refusal to open |
| --- | --- |
| `E027` | fifteen sources are open already |
| `E028` | the file cannot be opened |
-/

import ClassIndex.Cursor.Token
import ClassIndex.Diagnostic.Journal
import ClassIndex.FileTree

namespace ClassIndex

/-- Why a source is not opened. -/
inductive OpenError where
  | nestingTooDeep (depth : Nat)
  | openFailed (path message : String)
deriving DecidableEq, Repr

/-- The largest number of open sources. -/
def maxDepth : Nat := 15

namespace OpenError

/-- The code under which a refusal is reported. -/
def code : OpenError → String
  | .nestingTooDeep _ => "E027"
  | .openFailed .. => "E028"

/-- The wording of a refusal. -/
def message : OpenError → String
  | .nestingTooDeep depth =>
    "maximum file nesting depth exceeded: " ++ toString depth ++ " open sources (max "
      ++ toString maxDepth ++ ")"
  | .openFailed path message => "cannot open input file: \"" ++ path ++ "\": " ++ message

end OpenError

/-- What the user wants of a scan: warnings of unknown bytes, notes when sources open and end. -/
structure ScanPreferences where
  warnUnrecognized : Bool
  noteSources : Bool
deriving DecidableEq, Repr

instance : Inhabited ScanPreferences := ⟨⟨true, false⟩⟩

/-- Counts of a scan. -/
structure Metrics where
  tokens : Nat := 0
  keywords : Nat := 0
  identifiers : Nat := 0
  literals : Nat := 0
  errors : Nat := 0
  sources : Nat := 0
  deepest : Nat := 0
deriving DecidableEq, Inhabited, Repr

namespace Metrics

/-- Counts a token; the end of the input is none. -/
def countToken (m : Metrics) (kind : Token.Kind) : Metrics :=
  if kind = .endOfInput then m
  else
    let m := { m with tokens := m.tokens + 1 }
    match kind.group with
    | .keyword => { m with keywords := m.keywords + 1 }
    | .identifier => { m with identifiers := m.identifiers + 1 }
    | .literal => { m with literals := m.literals + 1 }
    | .control => { m with errors := m.errors + 1 }
    | .operator | .punctuation => m

/-- Counts a source that was opened as one of so many. -/
def countSource (m : Metrics) (depth : Nat) : Metrics :=
  { m with sources := m.sources + 1, deepest := max m.deepest depth }

end Metrics

/-- The open sources, the innermost first, and what the scan has come to. -/
structure Scanner where
  sources : List Source
  lexeme : Buffer
  startLine : Int
  startColumn : Int
  metrics : Metrics
  /-- The end of the input has been noted since a source was last opened. -/
  endNoted : Bool
  preferences : ScanPreferences
  journal : Diagnostic.Journal

namespace Scanner

open Diagnostic (Event Journal)

/-- A scanner without open sources, which goes on with a journal. -/
def new (preferences : ScanPreferences) (journal : Journal) : Scanner :=
  ⟨[], .empty, -1, -1, {}, false, preferences, journal⟩

instance : Inhabited Scanner := ⟨new default .empty⟩

/-- The number of open sources. -/
def depth (s : Scanner) : Nat := s.sources.length

/-- The name that stands for a source where none is open. -/
def noSource : String := "no open file"

/-- The name of the source being read. -/
def sourceName (s : Scanner) : String :=
  match s.sources with
  | f :: _ => f.name
  | [] => noSource

/-- Where the scanner is. -/
def location (s : Scanner) : Location :=
  match s.sources with
  | f :: _ => f.location
  | [] => ⟨noSource, -1, -1⟩

/-- Where the last token started. -/
def tokenLocation (s : Scanner) : Location := ⟨s.sourceName, s.startLine, s.startColumn⟩

/-- The text of the last token. -/
def lexemeText (s : Scanner) : String := s.lexeme.text

/-- Adds a note to the journal. -/
def note (s : Scanner) (e : Event) : Scanner := { s with journal := s.journal.note e }

/-- Adds a note on a source to the journal, if such notes are wanted. -/
def noteSource (s : Scanner) (e : Event) : Scanner :=
  if s.preferences.noteSources then s.note e else s

/-- Records a fault where the scanner is. -/
def report (s : Scanner) (f : Fault) : Scanner :=
  { s with journal := s.journal.addDiagnostics [f.event s.location] }

/-- Records a fault where the last token started. -/
def reportToken (s : Scanner) (f : Fault) : Scanner :=
  { s with journal := s.journal.addDiagnostics [f.event s.tokenLocation] }

/-- Refuses to open a source, which is recorded without a place. -/
def refuse (s : Scanner) (e : OpenError) : Except OpenError Unit × Scanner :=
  (.error e, { s with journal := s.journal.unplaced e.code e.message })

/-- Suspends the source being read for a new one. -/
def suspend (s : Scanner) (f : Source) : Scanner :=
  let s := s.noteSource ((Event.trace "Source opened").withFacts
    [("name", f.name), ("depth", toString (s.depth + 1))])
  { s with
    sources := f :: s.sources
    endNoted := false
    metrics := s.metrics.countSource (s.depth + 1) }

/-- Opens a source. -/
def push (s : Scanner) (f : Source) : Except OpenError Unit × Scanner :=
  if maxDepth ≤ s.depth then s.refuse (.nestingTooDeep (s.depth + 1)) else (.ok (), s.suspend f)

/-- Opens the file that a path leads to. The number of open sources is looked at first. -/
def openFile (s : Scanner) (t : FileTree) (path : String) : Except OpenError Unit × Scanner :=
  if maxDepth ≤ s.depth then s.refuse (.nestingTooDeep (s.depth + 1))
  else match t.read path with
    | .ok (bytes, failure?) => (.ok (), s.suspend (.ofBytes path bytes failure?))
    | .error e => s.refuse (.openFailed path e.message)

/-- The cursor at which a source is read on. -/
def cursor (s : Scanner) (f : Source) : Cursor :=
  ⟨f, s.lexeme, f.position, [], s.preferences.warnUnrecognized⟩

/-- Takes over what a cursor has come to, but for its source. -/
def settle (s : Scanner) (c : Cursor) : Scanner :=
  { s with
    lexeme := c.lexeme
    startLine := c.start.line
    startColumn := c.start.column
    journal := s.journal.addDiagnostics c.faults }

/-- Closes a source that has ended and goes back to those around it. -/
def close (s : Scanner) (f : Source) (outer : List Source) : Scanner :=
  { s with sources := outer }.noteSource ((Event.trace "Source closed").withFacts
    [("name", f.name), ("lines", toString f.position.line), ("depth", toString outer.length)])

/-- The next token of a stack of sources. -/
def advance (s : Scanner) : List Source → Token.Kind × Scanner
  | [] =>
    (.endOfInput, { s with sources := [], lexeme := s.lexeme.clear, startLine := -1,
                           startColumn := -1 })
  | f :: outer =>
    match (s.cursor f).token with
    | (some kind, c) => (kind, { s.settle c with sources := c.source :: outer })
    | (none, c) =>
      let s := (s.settle c).close c.source outer
      match outer with
      | [] => (.endOfInput, s)
      | _ :: _ => advance s outer

/-- The note that the input has ended. -/
def endNote (m : Metrics) : Event :=
  (Event.trace "Input exhausted").withFacts
    [("tokens", toString m.tokens), ("keywords", toString m.keywords),
     ("identifiers", toString m.identifiers), ("errors", toString m.errors),
     ("sources", toString m.sources)]

/-- Counts a token; the end of the input is noted once. -/
def count (s : Scanner) (kind : Token.Kind) : Scanner :=
  let s := { s with metrics := s.metrics.countToken kind }
  if kind = .endOfInput && !s.endNoted then { s with endNoted := true }.note (endNote s.metrics)
  else s

/-- The next token. -/
def next (s : Scanner) : Token.Kind × Scanner :=
  let (kind, s) := s.advance s.sources
  (kind, s.count kind)

/-- The next token, which has to be of a kind; any other is a fault. -/
def expect (s : Scanner) (wanted : Token.Kind) : Token.Kind × Scanner :=
  let (got, s) := s.next
  if got = wanted then (got, s) else (.error, s.report (.unexpected wanted got))

/-- The next token, which has to be of one of some kinds; any other is a fault. -/
def expectAny (s : Scanner) (wanted : List Token.Kind) : Token.Kind × Scanner :=
  let (got, s) := s.next
  if wanted.contains got then (got, s) else (.error, s.report (.noneOf wanted got))

/-- A scanner over one file. -/
def ofFile (t : FileTree) (path : String) (journal : Journal) :
    Except OpenError Unit × Scanner :=
  (new default journal).openFile t path

/-- A scanner over a text. -/
def ofText (name : String) (bytes : List UInt8) (journal : Journal) : Scanner :=
  ((new default journal).push (.ofBytes name bytes none)).2

end Scanner
end ClassIndex
