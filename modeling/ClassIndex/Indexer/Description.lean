/-
# Descriptions of a state

A state is described on one line: the name of its type, then its fields in braces, rows in square
brackets. The open sources are listed from the outermost inwards, and of the bytes given back the
last one is read first.
-/

import ClassIndex.Indexer.Basic
import ClassIndex.Text.Quoted

namespace ClassIndex

/-- A value with named parts. -/
def described (name : String) (fields : List (String × String)) : String :=
  name ++ " \x7b " ++ String.intercalate ", " (fields.map fun (n, v) => n ++ ": " ++ v) ++ " \x7d"

/-- A row of values. -/
def describedRow (items : List String) : String := "[" ++ String.intercalate ", " items ++ "]"

/-- The description of a position. -/
def Position.description (p : Position) : String :=
  described "Position"
    [("offset", toString p.offset), ("line", toString p.line), ("column", toString p.column)]

/-- The description of an open source. -/
def Source.description (s : Source) : String :=
  described "SourceFrame"
    [("name", Text.quoted s.name), ("position", s.position.description),
     ("pushback", describedRow (s.returned.reverse.map fun b => toString b.toNat)),
     ("exhausted", toString s.ended)]

/-- The description of a buffer. -/
def Buffer.description (b : Buffer) : String :=
  described "ByteBuffer"
    [("bytes", describedRow (b.toList.map fun x => toString x.toNat)),
     ("capacity", toString b.capacity)]

/-- The description of a scan's counts. -/
def Metrics.description (m : Metrics) : String :=
  described "ScanMetrics"
    [("total_tokens", toString m.tokens), ("keyword_tokens", toString m.keywords),
     ("identifier_tokens", toString m.identifiers), ("literal_tokens", toString m.literals),
     ("error_tokens", toString m.errors), ("sources_opened", toString m.sources),
     ("max_depth", toString m.deepest)]

/-- The description of a scanner. -/
def Scanner.description (s : Scanner) : String :=
  described "Scanner"
    [("frames", describedRow (s.sources.reverse.map Source.description)),
     ("lexeme", s.lexeme.description), ("metrics", s.metrics.description)]

/-- The description of the directories searched. -/
def SearchPath.description (p : SearchPath) : String :=
  described "ImportResolver"
    [("search_path", describedRow (p.search.map Text.quoted)),
     ("include_path", describedRow (p.included.map Text.quoted))]

/-- The description of an index. -/
def Indexer.description (x : Indexer) : String :=
  described "Driver"
    [("scanner", x.scanner.description), ("symbols", toString x.symbols.size),
     ("resolver", x.searchPath.description)]

end ClassIndex
