/-
# Indexing a source

Between definitions the indexer expects a class, an import, or the head of a definition outside
of its class. It passes over the rest of every definition, up to a semicolon or through a block of
balanced braces. Anything else is a fault; after a malformed token or a class without a name it
passes over everything up to the next brace.

| where it is | what ends it |
| --- | --- |
| between definitions | the end of the input |
| behind `class`, behind `import` | the next token |
| in a head | a semicolon, or the brace that opens the block |
| in a block | the brace that closes it; the end of the input is a fault |
| after something malformed | any brace |
-/

import ClassIndex.Indexer.Basic

namespace ClassIndex
namespace Indexer

open Diagnostic (Event)

/-- Where among the definitions the indexer is. -/
inductive Place where
  | betweenDefinitions
  | behindClass
  | behindImport
  | inHead
  | inBlock (open? : Nat)
  | inMalformed
deriving DecidableEq, Repr

/-- How many tokens at the end of the input it takes at most to get between definitions. -/
def Place.rank : Place → Nat
  | .betweenDefinitions => 0
  | .behindClass => 2
  | _ => 1

/-- What follows a token. -/
inductive Course where
  | goOn (place : Place) (x : Indexer)
  | stop (result : Except IndexError Unit) (x : Indexer)

/-- Between definitions. -/
def between (kind : Token.Kind) (x : Indexer) : Course :=
  match kind with
  | .classWord => .goOn .behindClass x
  | .importWord => .goOn .behindImport x
  | .identifier | .publicWord | .privateWord | .protectedWord => .goOn .inHead x
  | .error => .goOn .inMalformed x
  | .endOfInput => .stop (.ok ()) x
  | kind => .goOn .betweenDefinitions (x.reportToken (.notTopLevel kind))

/-- Behind the word `class`: the class is declared, if its name is free; else that is an error
and its definition is passed over all the same. -/
def nameClass (kind : Token.Kind) (x : Indexer) : Course :=
  if kind = .identifier then
    match x.declareClass x.scanner.lexemeText with
    | (.ok (), x) => .goOn .inHead x
    | (.error (.alreadyExists _), x) => .goOn .inHead x
    | (.error e, x) => .stop (.error (.symbols e)) x
  else .goOn .inMalformed (x.report (.unexpected .identifier kind))

/-- Behind the word `import`: the source is opened. -/
def followImport (t : FileTree) (kind : Token.Kind) (x : Indexer) : Course :=
  if kind = .quoted then
    match x.openImport t x.scanner.lexemeText with
    | (.ok (), x) => .goOn .betweenDefinitions x
    | (.error e, x) => .stop (.error e) x
  else .goOn .betweenDefinitions (x.report (.unexpected .quoted kind))

/-- In the head of a definition. -/
def passHead (kind : Token.Kind) (x : Indexer) : Course :=
  match kind with
  | .openCurly => .goOn (.inBlock 1) x
  | .semicolon | .endOfInput => .goOn .betweenDefinitions x
  | _ => .goOn .inHead x

/-- In a block with so many braces open. -/
def passBlock (open? : Nat) (kind : Token.Kind) (x : Indexer) : Course :=
  match kind with
  | .openCurly => .goOn (.inBlock (open? + 1)) x
  | .closeCurly => .goOn (if open? ≤ 1 then .betweenDefinitions else .inBlock (open? - 1)) x
  | .endOfInput =>
    .goOn .betweenDefinitions (x.reportToken (.unexpected .closeCurly .endOfInput))
  | _ => .goOn (.inBlock open?) x

/-- After something malformed. -/
def passMalformed (kind : Token.Kind) (x : Indexer) : Course :=
  match kind with
  | .openCurly | .closeCurly | .endOfInput => .goOn .betweenDefinitions x
  | _ => .goOn .inMalformed x

/-- What a token means in a place. -/
def take (t : FileTree) (place : Place) (kind : Token.Kind) (x : Indexer) : Course :=
  match place with
  | .betweenDefinitions => between kind x
  | .behindClass => nameClass kind x
  | .behindImport => followImport t kind x
  | .inHead => passHead kind x
  | .inBlock open? => passBlock open? kind x
  | .inMalformed => passMalformed kind x

/-- **Only an import adds to what is left to read,** and no more than a token takes. -/
theorem take_weight {m : Nat} {t : FileTree} (hm : t.largest + 2 ≤ m) {place place' : Place}
    {kind : Token.Kind} {x y : Indexer} (h : take t place kind x = .goOn place' y) :
    y.weight m < x.weight m + Scanner.tokenWeight m x.sources := by
  have hpos : 0 < Scanner.tokenWeight m x.sources := Scanner.tokenWeight_pos (by omega)
  have hx : x.weight m < x.weight m + Scanner.tokenWeight m x.sources := by omega
  cases place with
  | betweenDefinitions =>
    unfold take between at h
    dsimp only at h
    split at h <;> first | (cases h; exact hx) | cases h
  | behindClass =>
    unfold take nameClass at h
    dsimp only at h
    have hd := sources_declareClass x x.scanner.lexemeText
    split at h
    · split at h
      · rename_i z hz
        rw [hz] at hd; dsimp only at hd; cases h
        unfold weight; rw [hd]; exact hx
      · rename_i z hz
        rw [hz] at hd; dsimp only at hd; cases h
        unfold weight; rw [hd]; exact hx
      · cases h
    · cases h; exact hx
  | behindImport =>
    unfold take followImport at h
    dsimp only at h
    have hw := openImport_weight hm x x.scanner.lexemeText
    split at h
    · split at h
      · rename_i z hz
        rw [hz] at hw; cases h; exact hw
      · cases h
    · cases h; exact hx
  | inHead => unfold take passHead at h; dsimp only at h; split at h <;> (cases h; exact hx)
  | inBlock n => unfold take passBlock at h; dsimp only at h; split at h <;> (cases h; exact hx)
  | inMalformed =>
    unfold take passMalformed at h; dsimp only at h; split at h <;> (cases h; exact hx)

/-- The end of the input leads towards the end of the run, and opens nothing. -/
theorem take_endOfInput {t : FileTree} {place place' : Place} {x y : Indexer}
    (h : take t place .endOfInput x = .goOn place' y) :
    place'.rank < place.rank ∧ y.sources = x.sources := by
  cases place <;>
    simp only [take, between, nameClass, followImport, passHead, passBlock, passMalformed,
      reduceCtorEq, if_false, Course.goOn.injEq] at h <;>
    obtain ⟨rfl, rfl⟩ := h <;> exact ⟨by simp [Place.rank], rfl⟩

/-- Goes on from a place to the end of the input, or to what stops the run. -/
def drive (t : FileTree) (place : Place) (x : Indexer) : Except IndexError Unit × Indexer :=
  match _h : take t place x.nextToken.1 x.nextToken.2 with
  | .goOn place y => drive t place y
  | .stop result y => (result, y)
termination_by (x.weight (t.largest + 2), place.rank)
decreasing_by
  have hw := take_weight (Nat.le_refl _) _h
  rcases nextToken_weight (t.largest + 2) x with ⟨hk, hs⟩ | hn
  · rw [hk] at _h
    obtain ⟨hr, hy⟩ := take_endOfInput _h
    have hz : y.weight (t.largest + 2) = 0 := by
      show Scanner.weight _ y.sources = 0; rw [hy, hs]; rfl
    rw [hz]
    rcases Nat.eq_zero_or_pos (x.weight (t.largest + 2)) with h0 | h0
    · rw [h0]; exact Prod.Lex.right _ hr
    · exact Prod.Lex.left _ _ h0
  · exact Prod.Lex.left _ _ (Nat.lt_of_lt_of_le hw hn)

/-- The note that a run begins. -/
def startNote (path : String) : Event :=
  (Event.information "Scanning source").withFact "file" path

/-- The note that a run is over. -/
def finishNote (path : String) (s : Summary) : Event :=
  (Event.success "I020" "Scan completed").withFacts
    [("file", path), ("symbols", toString s.symbols), ("errors", toString s.errors)]

/-- Scans the file at a path with all its imports and declares the classes found. -/
def run (t : FileTree) (path : String) (x : Indexer) : Except IndexError Summary × Indexer :=
  match (x.add (.note (startNote path))).openFile t path with
  | (.error e, x) => (.error e, x)
  | (.ok (), x) =>
    match drive t .betweenDefinitions x with
    | (.error e, x) => (.error e, x)
    | (.ok (), x) =>
      (.ok x.summary, x.add (.note (finishNote path x.summary)))

end Indexer
end ClassIndex
