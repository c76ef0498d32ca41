/-
# Listings

Two listings can be written: the tokens of a source with everything it imports in place, one line
each, and the declared symbols in the order of their names. The output may take only so many
bytes; what fits is written, and the rest stops the listing.
-/

import ClassIndex.Indexer.Basic
import ClassIndex.Token.Listed

namespace ClassIndex

/-- The room that an output has, if it is limited, and the number of bytes written. -/
structure Sink where
  limit? : Option Nat
  written : Nat

namespace Sink

/-- An output that takes everything. -/
def unlimited : Sink := ⟨none, 0⟩

instance : Inhabited Sink := ⟨unlimited⟩

/-- The part of a row of bytes that still fits. -/
def fitting (s : Sink) (bytes : List UInt8) : List UInt8 :=
  match s.limit? with
  | none => bytes
  | some limit => bytes.take (limit - s.written)

/-- The failure of an output that has no room left. -/
def full : String := "sink full"

end Sink

namespace Indexer

/-- Writes a line: what fits goes into the journal. The answer is the output with the room left,
or its failure. -/
def writeLine (x : Indexer) (sink : Sink) (line : String) : Except IndexError Sink × Indexer :=
  let bytes := Text.utf8 (line ++ "\n")
  let fitting := sink.fitting bytes
  (if fitting.length < bytes.length then .error (.output Sink.full)
    else .ok { sink with written := sink.written + bytes.length },
    x.add (.output fitting))

@[simp] theorem sources_writeLine (x : Indexer) (sink : Sink) (line : String) :
    (x.writeLine sink line).2.sources = x.sources := rfl

/-- The last token as it is listed. -/
def listed (x : Indexer) (kind : Token.Kind) : Token.Listed :=
  let l := x.scanner.tokenLocation
  ⟨kind, x.scanner.lexemeText, l.file, l.line, l.column⟩

/-- Opens the source that a listed token names, if it is a string behind the word `import`. -/
def followListed (t : FileTree) (afterImport : Bool) (kind : Token.Kind) (x : Indexer) :
    Except IndexError Unit × Indexer :=
  if afterImport && kind = .quoted then x.openImport t x.scanner.lexemeText else (.ok (), x)

/-- Lists a token and opens the source that it may name. -/
def listToken (t : FileTree) (afterImport : Bool) (sink : Sink) (kind : Token.Kind) (x : Indexer) :
    Except IndexError Sink × Indexer :=
  match x.writeLine sink (x.listed kind).shown with
  | (.error e, x) => (.error e, x)
  | (.ok sink, x) =>
    match followListed t afterImport kind x with
    | (.error e, x) => (.error e, x)
    | (.ok (), x) => (.ok sink, x)

theorem listToken_weight {m : Nat} {t : FileTree} (hm : t.largest + 2 ≤ m) (afterImport : Bool)
    (sink : Sink) (kind : Token.Kind) (x : Indexer) :
    (listToken t afterImport sink kind x).2.weight m
      < x.weight m + Scanner.tokenWeight m x.sources := by
  have hpos : 0 < Scanner.tokenWeight m x.sources := Scanner.tokenWeight_pos (by omega)
  have hw := sources_writeLine x sink (x.listed kind).shown
  unfold listToken
  split
  · rename_i e y hy
    rw [hy] at hw; dsimp only at hw ⊢
    unfold weight; rw [hw]; omega
  · rename_i sink' y hy
    rw [hy] at hw; dsimp only at hw
    have hf : (followListed t afterImport kind y).2.weight m
        < y.weight m + Scanner.tokenWeight m y.sources := by
      unfold followListed
      split
      · exact openImport_weight hm y y.scanner.lexemeText
      · have : 0 < Scanner.tokenWeight m y.sources := Scanner.tokenWeight_pos (by omega)
        dsimp only; omega
    have hy' : y.weight m = x.weight m := by unfold weight; rw [hw]
    rw [hy', hw] at hf
    split
    · rename_i e z hz; rw [hz] at hf; exact hf
    · rename_i z hz; rw [hz] at hf; exact hf

/-- What follows a listed token. -/
inductive ListCourse where
  | goOn (afterImport : Bool) (sink : Sink) (x : Indexer)
  | stop (result : Except IndexError Unit) (x : Indexer)

/-- Lists the next token. -/
def listNext (t : FileTree) (afterImport : Bool) (sink : Sink) (x : Indexer) : ListCourse :=
  match x.nextToken with
  | (kind, x) =>
    if kind = .endOfInput then .stop (.ok ()) x
    else match listToken t afterImport sink kind x with
      | (.error e, x) => .stop (.error e) x
      | (.ok sink, x) => .goOn (kind == .importWord) sink x

theorem listNext_weight {m : Nat} {t : FileTree} (hm : t.largest + 2 ≤ m)
    {afterImport after' : Bool} {sink sink' : Sink} {x y : Indexer}
    (h : listNext t afterImport sink x = .goOn after' sink' y) : y.weight m < x.weight m := by
  have hn := nextToken_weight m x
  unfold listNext at h
  split at h
  rename_i kind z hz
  rw [hz] at hn
  dsimp only at hn
  split at h
  · cases h
  · rename_i hk
    have hl := listToken_weight hm afterImport sink kind z
    split at h
    · cases h
    · rename_i left w hw
      rw [hw] at hl
      cases h
      rcases hn with ⟨h, _⟩ | hn
      · exact absurd h hk
      · exact Nat.lt_of_lt_of_le hl hn

/-- Lists the tokens up to the end of the input, or to what stops the listing. -/
def listTokens (t : FileTree) (afterImport : Bool) (sink : Sink) (x : Indexer) :
    Except IndexError Unit × Indexer :=
  match _h : listNext t afterImport sink x with
  | .goOn afterImport sink y => listTokens t afterImport sink y
  | .stop result y => (result, y)
termination_by x.weight (t.largest + 2)
decreasing_by exact listNext_weight (Nat.le_refl _) _h

/-- Lists the tokens of the file at a path, with those of its imports in place. -/
def dumpTokens (t : FileTree) (path : String) (sink : Sink) (x : Indexer) :
    Except IndexError Summary × Indexer :=
  match x.openFile t path with
  | (.error e, x) => (.error e, x)
  | (.ok (), x) =>
    match listTokens t false sink x with
    | (.error e, x) => (.error e, x)
    | (.ok (), x) => (.ok x.summary, x)

/-- A word with blanks behind it up to a width. -/
def padded (width : Nat) (word : String) : String :=
  word ++ String.ofList (List.replicate (width - word.length) ' ')

/-- The line of a symbol in the listing. -/
def symbolLine (key : String) (s : Symbol) : String :=
  padded 10 s.kind.text ++ " " ++ Decoration.readable key

/-- Lists the symbols of some keys. -/
def listSymbols (sink : Sink) : List String → Indexer → Except IndexError Unit × Indexer
  | [], x => (.ok (), x)
  | key :: keys, x =>
    match x.symbols.resolve x.journal key with
    | (.error e, journal) => (.error (.symbols e), x.withJournal journal)
    | (.ok s, journal) =>
      match (x.withJournal journal).writeLine sink (symbolLine key s) with
      | (.error e, x) => (.error e, x)
      | (.ok sink, x) => listSymbols sink keys x

/-- Lists the declared symbols in the order of their names. -/
def writeSymbols (sink : Sink) (x : Indexer) : Except IndexError Unit × Indexer :=
  listSymbols sink x.symbols.names x

end Indexer
end ClassIndex
