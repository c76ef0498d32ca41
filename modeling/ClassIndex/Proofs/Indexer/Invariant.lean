/-
# What every step of an index keeps

A property of an index holds after any row of calls if it holds before them and every step keeps
it (`Invariant.after`). Where only the rounds over one tree keep it, it holds after a run or a listing
of a file of that tree (`Rounds.run`, `Rounds.dumpTokens`):

| step | in a run | in a listing of tokens | in a listing of symbols |
| --- | :---: | :---: | :---: |
| a token is read | x | x | |
| a fault is recorded | x | | |
| a file is opened | x | x | |
| an import is followed | x | x | |
| a class is declared | x | | |
| a line is written | | x | x |
| a refusal of the symbols is recorded | | | x |
| a note is made | x | | |
-/

import ClassIndex.Proofs.Indexer.Calls
import ClassIndex.Proofs.Indexer.Located

namespace ClassIndex

open Diagnostic (Event)

namespace Indexer

/-- Every round of a run or of a listing over a tree keeps a property of an index, where a class is
declared only under a name of some kind. -/
structure Rounds (t : FileTree) (Named Q : Indexer → Prop) : Prop where
  nextToken : ∀ {x}, Q x → Q x.nextToken.2
  misplaced : ∀ {x y} {f : Fault}, f.code = "E030" → y = x.report f ∨ y = x.reportToken f →
    Q x → Q y
  openImport : ∀ {x} (name : String), Q x → Q (x.openImport t name).2
  declareClass : ∀ {x}, Named x → Q x → Q (x.declareClass x.scanner.lexemeText).2
  writeLine : ∀ {x} (sink : Sink) (line : String), Q x → Q (x.writeLine sink line).2
  note : ∀ {x} (e : Event), Q x → Q (x.add (.note e))

/-- Every step keeps a property of an index. -/
structure Invariant (Q : Indexer → Prop) : Prop where
  nextToken : ∀ {x}, Q x → Q x.nextToken.2
  report : ∀ {x} (f : Fault), Q x → Q (x.report f)
  reportToken : ∀ {x} (f : Fault), Q x → Q (x.reportToken f)
  openFile : ∀ {x} (t : FileTree) (path : String), Q x → Q (x.openFile t path).2
  openImport : ∀ {x} (t : FileTree) (name : String), Q x → Q (x.openImport t name).2
  declareClass : ∀ {x} (name : String), Q x → Q (x.declareClass name).2
  writeLine : ∀ {x} (sink : Sink) (line : String), Q x → Q (x.writeLine sink line).2
  refusal : ∀ {x} (e : SymbolError), Q x → Q (x.withJournal (e.record x.journal))
  note : ∀ {x} (e : Event), Q x → Q (x.add (.note e))

variable {t : FileTree} {Named Q : Indexer → Prop} {x : Indexer}

/-- What every round of a loop keeps, the loop keeps. -/
theorem Invariant.loop {σ : Type} {round : σ → σ ⊕ (Except IndexError Unit × Indexer)}
    (index : σ → Indexer) (hround : ∀ s, Q (index s) → Q ((round s).elim index Prod.snd)) {s : σ}
    {n : Nat} {r : Except IndexError Unit × Indexer} (hrun : EndsWithin round n s r)
    (hs : Q (index s)) : Q r.2 := by
  refine hrun.induct (I := fun s => Q (index s)) (Q := fun r => Q r.2) hs ?_ ?_
  all_goals
    intro p q _ hp hstep
    have hq := hround p hp
    rw [hstep] at hq
    exact hq

/-- It holds wherever the rounds lead. -/
theorem Invariant.visited {σ : Type} {round : σ → σ ⊕ (Except IndexError Unit × Indexer)}
    (index : σ → Indexer) (hround : ∀ s, Q (index s) → Q ((round s).elim index Prod.snd)) {s s' : σ}
    (h : Visits round s s') (hs : Q (index s)) : Q (index s') := by
  induction h with
  | start => exact hs
  | next _ hstep ih =>
    have hnext := hround _ ih
    rwa [hstep] at hnext

/-! ## Runs and listings over one tree -/

namespace Rounds

theorem take (hQ : Rounds t Named Q) (place : Place) {kind : Token.Kind}
    (hname : kind = .identifier → Named x) (h : Q x) : Q (take t place kind x).state := by
  rcases course_cases t place kind with ⟨rfl, rfl⟩ | ⟨rfl, rfl⟩ | ⟨c, hc, htake⟩
  · have hdeclared := hQ.declareClass (hname rfl) h
    unfold Indexer.take nameClass
    dsimp only
    rw [if_pos rfl]
    split
    all_goals
      rename_i heq
      rw [heq] at hdeclared
      exact hdeclared
  · have hopened := hQ.openImport x.scanner.lexemeText h
    unfold Indexer.take followImport
    dsimp only
    rw [if_pos rfl]
    split
    all_goals
      rename_i heq
      rw [heq] at hopened
      exact hopened
  · obtain ⟨y, hy, hsame⟩ := htake x
    have hstate : (c y).state = y := by
      rcases hc with ⟨rfl, -⟩ | ⟨place', rfl⟩ <;> rfl
    rw [hy, hstate]
    rcases hsame with rfl | ⟨f, hf, hreport⟩
    · exact h
    · exact hQ.misplaced hf hreport h

theorem listToken (hQ : Rounds t Named Q) (afterImport : Bool) (sink : Sink) (kind : Token.Kind)
    (h : Q x) : Q (listToken t afterImport sink kind x).2 := by
  have hwritten := hQ.writeLine sink (x.listed kind).shown h
  have hfollow (y : Indexer) (hy : Q y) : Q (followListed t afterImport kind y).2 := by
    unfold followListed
    split
    · exact hQ.openImport _ hy
    · exact hy
  unfold Indexer.listToken
  rcases hwrite : x.writeLine sink (x.listed kind).shown with ⟨e | left, y⟩
  all_goals rw [hwrite] at hwritten
  · exact hwritten
  · have hfollowed := hfollow y hwritten
    dsimp only
    rcases hopen : followListed t afterImport kind y with ⟨e | _, z⟩
    all_goals
      rw [hopen] at hfollowed
      exact hfollowed

theorem listNext (hQ : Rounds t Named Q) (afterImport : Bool) (sink : Sink)
    (h : Q x.nextToken.2) : Q (listNext t afterImport sink x).state := by
  have hlisted := hQ.listToken afterImport sink x.nextToken.1 h
  unfold Indexer.listNext
  dsimp only
  split
  · exact h
  · split
    all_goals
      rename_i heq
      rw [heq] at hlisted
      exact hlisted

theorem driveRound (hQ : Rounds t Named Q)
    (hname : ∀ x : Indexer, x.nextToken.1 = .identifier → Named x.nextToken.2)
    (s : Place × Indexer) (hs : Q s.2) : Q ((driveRound t s).elim Prod.snd Prod.snd) := by
  rw [driveRound_state]
  exact hQ.take s.1 (hname s.2) (hQ.nextToken hs)

theorem listRound (hQ : Rounds t Named Q) (s : Bool × Sink × Indexer) (hs : Q s.2.2) :
    Q ((listRound t s).elim (fun s => s.2.2) Prod.snd) := by
  rw [listRound_state]
  exact hQ.listNext s.1 s.2.1 (hQ.nextToken hs)

/-- What the opening of its file and every round keep, a run keeps. -/
theorem run (hQ : Rounds t Named Q)
    (hname : ∀ x : Indexer, x.nextToken.1 = .identifier → Named x.nextToken.2) {path : String}
    (hopened : Q ((x.add (.note (startNote path))).openFile t path).2) : Q (run t path x).2 := by
  have hends := runEnds (Nat.le_refl (t.largest + 2)) path x
  generalize Indexer.run t path x = r at hends ⊢
  cases hends with
  | refused hopen => rwa [hopen] at hopened
  | stopped hopen hrun =>
    rw [hopen] at hopened
    exact Invariant.loop Prod.snd (hQ.driveRound hname) hrun hopened
  | finished hopen hrun =>
    rw [hopen] at hopened
    exact hQ.note _ (Invariant.loop Prod.snd (hQ.driveRound hname) hrun hopened)

theorem dumpTokens (hQ : Rounds t Named Q) {path : String} (sink : Sink)
    (hopened : Q (x.openFile t path).2) : Q (dumpTokens t path sink x).2 := by
  have hends := dumpEnds (Nat.le_refl (t.largest + 2)) path sink x
  generalize Indexer.dumpTokens t path sink x = r at hends ⊢
  cases hends with
  | refused hopen => rwa [hopen] at hopened
  | stopped hopen hrun | finished hopen hrun =>
    rw [hopen] at hopened
    exact Invariant.loop (fun s => s.2.2) hQ.listRound hrun hopened

end Rounds

/-! ## All calls -/

namespace Invariant

theorem rounds (hQ : Invariant Q) (t : FileTree) : Rounds t (fun _ => True) Q where
  nextToken := hQ.nextToken
  misplaced _ hy h := by
    rcases hy with rfl | rfl
    · exact hQ.report _ h
    · exact hQ.reportToken _ h
  openImport name h := hQ.openImport t name h
  declareClass _ h := hQ.declareClass _ h
  writeLine := hQ.writeLine
  note := hQ.note

theorem take (hQ : Invariant Q) (t : FileTree) (place : Place) (kind : Token.Kind) (h : Q x) :
    Q (take t place kind x).state :=
  (hQ.rounds t).take place (fun _ => trivial) h

theorem listNext (hQ : Invariant Q) (t : FileTree) (afterImport : Bool) (sink : Sink)
    (h : Q x.nextToken.2) : Q (listNext t afterImport sink x).state :=
  (hQ.rounds t).listNext afterImport sink h

theorem run (hQ : Invariant Q) (t : FileTree) (path : String) (h : Q x) : Q (run t path x).2 :=
  (hQ.rounds t).run (fun _ _ => trivial) (hQ.openFile t path (hQ.note (startNote path) h))

theorem dumpTokens (hQ : Invariant Q) (t : FileTree) (path : String) (sink : Sink) (h : Q x) :
    Q (dumpTokens t path sink x).2 :=
  (hQ.rounds t).dumpTokens sink (hQ.openFile t path h)

theorem listSymbols (hQ : Invariant Q) (sink : Sink) (keys : List String) (h : Q x) :
    Q (listSymbols sink keys x).2 := by
  induction keys generalizing sink x with
  | nil => exact h
  | cons key keys ih =>
    rw [Indexer.listSymbols, SymbolTable.resolve]
    cases x.symbols.lookup key with
    | error e => exact hQ.refusal e h
    | ok s =>
      have hwritten := hQ.writeLine sink (symbolLine key s) h
      dsimp only
      rw [show x.withJournal x.journal = x from rfl]
      rcases hwrite : x.writeLine sink (symbolLine key s) with ⟨e | left, y⟩
      all_goals rw [hwrite] at hwritten
      · exact hwritten
      · exact ih left hwritten

/-- **What every step keeps, every call keeps.** -/
theorem answer (hQ : Invariant Q) (call : Call) (h : Q x) : Q (x.answer call).2 := by
  cases call with
  | run t path => exact hQ.run t path h
  | dump t path sink => exact hQ.dumpTokens t path sink h
  | write sink => exact hQ.listSymbols sink x.symbols.names h

theorem after (hQ : Invariant Q) (calls : List Call) (h : Q x) : Q (x.after calls) := by
  induction calls generalizing x with
  | nil => exact h
  | cons call calls ih => exact ih (hQ.answer call h)

end Invariant

end Indexer
end ClassIndex
