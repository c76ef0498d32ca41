/-
# Where an index looks for its imports

No step of an index changes the directories that it searches (`searchPath_invariant`). So whatever a
run or a listing has read before, it follows an import to the first of these directories that has
the file (`searchesIn`), and stops where there is none:

| import | what follows |
| --- | --- |
| with a file in a directory | the file is read from the first such directory |
| with a file, but fifteen sources are open | nesting too deep |
| with a file in no directory | not found, with the paths tried in order |
| without a name, or with a NUL character in it | malformed name |
-/

import ClassIndex.Proofs.Indexer.Inlining
import ClassIndex.Proofs.Indexer.Invariant

namespace ClassIndex
namespace Indexer

/-- The path leads to the file of an import in the first of some directories that has it. -/
def FirstIn (dirs : List String) (t : FileTree) (name path : String) : Prop :=
  ∃ before dir after, dirs = before ++ dir :: after ∧
    (∀ d ∈ before, t.isFile (SearchPath.join d (SearchPath.fileName name).1) = false) ∧
    t.isFile path = true ∧ path = SearchPath.join dir (SearchPath.fileName name).1

/-- What an import leads to, if it is searched in some directories and these sources are open. -/
inductive Follows (dirs : List String) (t : FileTree) (name : String) (sources : List Source) :
    Except IndexError Unit × Indexer → Prop
  | opened {path : String} {bytes : List UInt8} {y : Indexer} : FirstIn dirs t name path →
      sources.length < maxDepth → t.read path = .ok (bytes, none) →
      y.sources = .ofBytes path bytes none :: sources →
      Follows dirs t name sources (.ok (), y)
  | tooDeep {path : String} {y : Indexer} : FirstIn dirs t name path →
      maxDepth ≤ sources.length → y.sources = sources →
      Follows dirs t name sources (.error (.scanner (.nestingTooDeep (sources.length + 1))), y)
  | missing {y : Indexer} :
      (∀ d ∈ dirs, t.isFile (SearchPath.join d (SearchPath.fileName name).1) = false) →
      y.sources = sources →
      Follows dirs t name sources (.error (.imports (.notFound name
        (dirs.map fun d => SearchPath.join d (SearchPath.fileName name).1))), y)
  | malformed {y : Indexer} : name = "" ∨ '\x00' ∈ name.toList → y.sources = sources →
      Follows dirs t name sources (.error (.imports (.invalidName (Text.escape name))), y)

/-- A round goes on behind an import that has opened its file, and stops with any error. -/
def roundBehind {σ : Type} (next : Indexer → σ) :
    Except IndexError Unit × Indexer → σ ⊕ (Except IndexError Unit × Indexer)
  | (.ok (), y) => .inl (next y)
  | (.error e, y) => .inr (.error e, y)

/-- Wherever a run or a listing of the file at a path has come to a string behind the word `import`,
it follows the import in these directories. -/
structure SearchesIn (dirs : List String) (t : FileTree) (path : String) (x : Indexer) :
    Prop where
  run : ∀ {start y : Indexer}, (x.add (.note (startNote path))).openFile t path = (.ok (), start) →
    Visits (driveRound t) (.betweenDefinitions, start) (.behindImport, y) →
    y.nextToken.1 = .quoted →
    ∃ r, Follows dirs t y.nextToken.2.scanner.lexemeText y.nextToken.2.sources r ∧
      driveRound t (.behindImport, y) = roundBehind (.betweenDefinitions, ·) r
  listing : ∀ {start y : Indexer} {sink : Sink}, x.openFile t path = (.ok (), start) →
    Visits (listRound t) (false, default, start) (true, sink, y) → y.nextToken.1 = .quoted →
    ∃ sink' r, Follows dirs t y.nextToken.2.scanner.lexemeText y.nextToken.2.sources r ∧
      listRound t (true, sink, y) = roundBehind (false, sink', ·) r

variable {t : FileTree} {sink : Sink} {x : Indexer}

/-! ## One import -/

/-- **An import is followed in the directories of the index.** -/
theorem openImport_follows (x : Indexer) (t : FileTree) (name : String) :
    Follows x.searchPath.directories t name x.sources (x.openImport t name) := by
  have hfind := SearchPath.find_eq x.searchPath t.isFile name
  by_cases hname : (name = "" || name.toList.contains '\x00') = true
  · rw [if_pos hname] at hfind
    rw [openImport, SearchPath.resolve, hfind]
    exact .malformed (by simpa using hname) rfl
  rw [if_neg hname] at hfind
  cases hfirst : (x.searchPath.tried name).find? t.isFile with
  | none =>
    rw [openImport, SearchPath.resolve, hfind, hfirst]
    exact .missing (SearchPath.isFile_eq_false_of_first hfirst) rfl
  | some path =>
    rw [hfirst] at hfind
    have hin : FirstIn x.searchPath.directories t name path :=
      SearchPath.exists_dir_of_first hfirst
    obtain ⟨bytes, hread⟩ := FileTree.read_of_isFile (List.find?_some hfirst)
    by_cases hroom : x.sources.length < maxDepth
    · rw [openImport_of_read hfind hread hroom]
      exact .opened hin hroom hread (sources_imported ..)
    · have hfull :
          maxDepth ≤ (x.sayFound name ⟨path, (SearchPath.fileName name).2⟩).scanner.depth :=
        Nat.not_lt.1 hroom
      rw [openImport, SearchPath.resolve, hfind]
      dsimp only
      rw [openFile, Scanner.openFile, if_pos hfull]
      exact .tooDeep hin hfull rfl

/-! ## The rounds -/

/-- **The directories searched never change.** -/
theorem searchPath_invariant (w : SearchPath) : Invariant fun x => x.searchPath = w where
  nextToken h := h
  report _ h := h
  reportToken _ h := h
  openFile t path h := by
    unfold openFile
    split <;> exact h
  openImport {x} t name h := (openImport_symbols x t name).2.1.trans h
  declareClass {x} name h := by
    unfold declareClass
    generalize (x.symbols.beginDecoration.addName name).declare x.journal .newClass = step
    exact h
  writeLine _ _ h := h
  refusal _ h := h
  note _ h := h

/-- A run follows the import that a string names. -/
theorem driveRound_follows (hquoted : x.nextToken.1 = .quoted) (t : FileTree) :
    ∃ r, Follows x.searchPath.directories t x.nextToken.2.scanner.lexemeText x.nextToken.2.sources
        r ∧
      driveRound t (.behindImport, x) = roundBehind (.betweenDefinitions, ·) r := by
  refine ⟨_, openImport_follows x.nextToken.2 t _, ?_⟩
  rw [driveRound, hquoted, take, followImport, if_pos rfl]
  rcases x.nextToken.2.openImport t x.nextToken.2.scanner.lexemeText with ⟨_ | _, y⟩ <;> rfl

/-- So does a listing on an output without a limit. -/
theorem listRound_follows (hsink : sink.limit? = none) (hquoted : x.nextToken.1 = .quoted)
    (t : FileTree) : ∃ sink' r, Follows x.searchPath.directories t
        x.nextToken.2.scanner.lexemeText x.nextToken.2.sources r ∧
      listRound t (true, sink, x) = roundBehind (false, sink', ·) r := by
  let line := (x.nextToken.2.listed .quoted).shown
  let written := x.nextToken.2.add (.output (Text.utf8 (line ++ "\n")))
  obtain ⟨sink', -, hwrite⟩ := writeLine_unlimited hsink x.nextToken.2 line
  refine ⟨sink', _, openImport_follows written t written.scanner.lexemeText, ?_⟩
  have hnext : x.nextToken = (.quoted, x.nextToken.2) := Prod.ext hquoted rfl
  have hgoesOn : Token.Kind.quoted ≠ .endOfInput := by decide
  rw [listRound, listNext, hnext]
  dsimp only
  rw [if_neg hgoesOn, listToken, hwrite]
  dsimp only
  rw [show followListed t true .quoted written
    = written.openImport t written.scanner.lexemeText from rfl]
  rcases written.openImport t written.scanner.lexemeText with ⟨_ | _, y⟩ <;> rfl

/-- An output without a limit stays one in a round. -/
theorem unlimited_of_round {afterImport after' : Bool} {sink' : Sink} {y : Indexer}
    (hsink : sink.limit? = none)
    (h : listRound t (afterImport, sink, x) = .inl (after', sink', y)) : sink'.limit? = none := by
  obtain ⟨left, hleft, hwrite⟩ :=
    writeLine_unlimited hsink x.nextToken.2 (x.nextToken.2.listed x.nextToken.1).shown
  rw [listRound, listNext] at h
  dsimp only at h
  by_cases hend : x.nextToken.1 = .endOfInput
  · rw [if_pos hend] at h
    cases h
  · rw [if_neg hend, listToken, hwrite] at h
    dsimp only at h
    generalize followListed t afterImport x.nextToken.1 _ = followed at h
    rcases followed with ⟨_ | _, z⟩ <;> cases h
    exact hleft

theorem unlimited_of_visits {s s' : Bool × Sink × Indexer} (h : Visits (listRound t) s s')
    (hs : s.2.1.limit? = none) : s'.2.1.limit? = none := by
  induction h with
  | start => exact hs
  | next _ hround ih => exact unlimited_of_round ih hround

/-- **Imports are searched in the directories that an index is made with.** -/
theorem searchesIn (p : ScanPreferences) (w : SearchPath) (j : Diagnostic.Journal) (t : FileTree)
    (path : String) : (new p w j).SearchesIn w.directories t path where
  run {start y} hopen hvisits hquoted := by
    have hkeeps := searchPath_invariant w
    have hstart : start.searchPath = w := by
      have hopened := hkeeps.openFile (x := (new p w j).add (.note (startNote path))) t path rfl
      rwa [hopen] at hopened
    have hround := (hkeeps.rounds t).driveRound fun _ _ => trivial
    have hy : y.searchPath = w :=
      Invariant.visited (Q := (·.searchPath = w)) Prod.snd hround hvisits hstart
    exact hy ▸ driveRound_follows hquoted t
  listing {start y sink} hopen hvisits hquoted := by
    have hkeeps := searchPath_invariant w
    have hstart : start.searchPath = w := by
      have hopened := hkeeps.openFile (x := new p w j) t path rfl
      rwa [hopen] at hopened
    have hround := (hkeeps.rounds t).listRound
    have hy : y.searchPath = w :=
      Invariant.visited (Q := (·.searchPath = w)) (fun s => s.2.2) hround hvisits hstart
    exact hy ▸ listRound_follows (unlimited_of_visits hvisits rfl) hquoted t

end Indexer
end ClassIndex
