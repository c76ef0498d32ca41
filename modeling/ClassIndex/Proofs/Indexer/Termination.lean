/-
# Every run comes to an end

Running and listing read one token in each round; heads, blocks and what is malformed are passed
over in rounds of the same loop. A token takes more weight off the open sources than the import it
belongs to may add. Where nothing is left to read, the end of the input leads between the
definitions in at most two rounds, and there the run is over.
So the number of rounds is bounded before the run begins (`run_ends`): with a bound `m` on the size
of what a path may lead to, by

  `∑ (bytes left + 1) · m ^ (15 - depth) + m ^ (15 - number of open sources) + 2`.

Import cycles are no exception, for no more than fifteen sources are open at a time.
-/

import ClassIndex.Indexer.Listing
import ClassIndex.Indexer.Run
import ClassIndex.Proofs.Scanner.Progress

namespace ClassIndex

namespace Indexer

/-- A round of a run: a token is read and taken. -/
def driveRound (t : FileTree) :
    Place × Indexer → (Place × Indexer) ⊕ (Except IndexError Unit × Indexer)
  | (place, x) =>
    match take t place x.nextToken.1 x.nextToken.2 with
    | .goOn place y => .inl (place, y)
    | .stop result y => .inr (result, y)

/-- A round of a listing: a token is read and listed. -/
def listRound (t : FileTree) :
    Bool × Sink × Indexer → (Bool × Sink × Indexer) ⊕ (Except IndexError Unit × Indexer)
  | (afterImport, sink, x) =>
    match listNext t afterImport sink x with
    | .goOn afterImport sink y => .inl (afterImport, sink, y)
    | .stop result y => .inr (result, y)

/-- A run of the file at a path ends within so many rounds, with an error or with a summary. -/
inductive RunEnds (t : FileTree) (path : String) (x : Indexer) (bound : Nat) :
    Except IndexError Summary × Indexer → Prop
  | refused {e : IndexError} {y : Indexer} :
      (x.add (.note (startNote path))).openFile t path = (.error e, y) →
      RunEnds t path x bound (.error e, y)
  | stopped {e : IndexError} {y z : Indexer} :
      (x.add (.note (startNote path))).openFile t path = (.ok (), y) →
      EndsWithin (driveRound t) bound (.betweenDefinitions, y) (.error e, z) →
      RunEnds t path x bound (.error e, z)
  | finished {y z : Indexer} :
      (x.add (.note (startNote path))).openFile t path = (.ok (), y) →
      EndsWithin (driveRound t) bound (.betweenDefinitions, y) (.ok (), z) →
      RunEnds t path x bound (.ok z.summary, z.add (.note (finishNote path z.summary)))

/-- A listing of the file at a path ends within so many rounds, with an error or with a
summary. -/
inductive DumpEnds (t : FileTree) (path : String) (sink : Sink) (x : Indexer) (bound : Nat) :
    Except IndexError Summary × Indexer → Prop
  | refused {e : IndexError} {y : Indexer} :
      x.openFile t path = (.error e, y) → DumpEnds t path sink x bound (.error e, y)
  | stopped {e : IndexError} {y z : Indexer} :
      x.openFile t path = (.ok (), y) →
      EndsWithin (listRound t) bound (false, sink, y) (.error e, z) →
      DumpEnds t path sink x bound (.error e, z)
  | finished {y z : Indexer} :
      x.openFile t path = (.ok (), y) →
      EndsWithin (listRound t) bound (false, sink, y) (.ok (), z) →
      DumpEnds t path sink x bound (.ok z.summary, z)

variable {t : FileTree} {m : Nat}

theorem weight_eq_zero {x : Indexer} (h : x.sources = []) : x.weight m = 0 := by
  rw [weight, h, Scanner.weight_nil]

theorem Place.rank_le (place : Place) : place.rank ≤ 2 := by
  cases place <;> simp [rank]

/-- What falls with every round of a run: the weight, and where nothing is left to read, the
number of rounds to the next place between definitions. -/
def ahead (m : Nat) (p : Place × Indexer) : Nat :=
  p.2.weight m + if p.2.sources = [] then p.1.rank else 2

theorem ahead_le (p : Place × Indexer) : ahead m p ≤ p.2.weight m + 2 := by
  have := p.1.rank_le
  unfold ahead
  split <;> omega

theorem driveRound_falls (hm : t.largest + 2 ≤ m) {p q : Place × Indexer}
    (h : driveRound t p = .inl q) : ahead m q < ahead m p := by
  obtain ⟨place, x⟩ := p
  unfold driveRound at h
  dsimp only at h
  split at h
  · rename_i place' y htake
    cases h
    by_cases hs : x.nextToken.1 = .endOfInput ∧ x.nextToken.2.sources = []
    · -- the end of the input: nothing is opened any more, and the place moves on
      rw [hs.1] at htake
      obtain ⟨hrank, hy⟩ := take_endOfInput htake
      have hle := place.rank_le
      rw [hs.2] at hy
      simp only [ahead, weight_eq_zero hy, hy, if_true]
      by_cases hx : x.sources = []
      · rw [if_pos hx]; omega
      · rw [if_neg hx]; omega
    · -- a token: its own weight makes room for what it opens
      have hlt := take_weight hm htake
      have hnext := (nextToken_weight m x).resolve_left hs
      have hx : x.sources ≠ [] := fun hx => by rw [weight_eq_zero hx] at hnext; omega
      have hle := ahead_le (m := m) (place', y)
      simp only [ahead, if_neg hx] at hle ⊢
      omega
  · cases h

theorem drive_eq (t : FileTree) (p : Place × Indexer) :
    drive t p.1 p.2 = (driveRound t p).elim (fun q => drive t q.1 q.2) id := by
  rw [drive, driveRound]
  split <;> rename_i heq <;> rw [heq] <;> rfl

theorem drive_ends (hm : t.largest + 2 ≤ m) (place : Place) (x : Indexer) :
    EndsWithin (driveRound t) (x.weight m + 3) (place, x) (drive t place x) :=
  (endsWithin_of_falls (ahead m) (drive_eq t) (driveRound_falls hm) (place, x)).mono
    (Nat.succ_le_succ (ahead_le (place, x)))

theorem listTokens_eq (t : FileTree) (p : Bool × Sink × Indexer) :
    listTokens t p.1 p.2.1 p.2.2 =
      (listRound t p).elim (fun q => listTokens t q.1 q.2.1 q.2.2) id := by
  rw [listTokens, listRound]
  split <;> rename_i heq <;> rw [heq] <;> rfl

theorem listTokens_ends (hm : t.largest + 2 ≤ m) (afterImport : Bool) (sink : Sink) (x : Indexer) :
    EndsWithin (listRound t) (x.weight m + 1) (afterImport, sink, x)
      (listTokens t afterImport sink x) := by
  refine endsWithin_of_falls (fun p => p.2.2.weight m) (listTokens_eq t) (fun {p q} h => ?_)
    (afterImport, sink, x)
  obtain ⟨afterImport, sink, x⟩ := p
  unfold listRound at h
  dsimp only at h
  split at h
  · rename_i heq
    cases h
    exact listNext_weight hm heq
  · cases h

/-- A run reads what was open before and what it opens. -/
theorem runEnds (hm : t.largest + 2 ≤ m) (path : String) (x : Indexer) :
    RunEnds t path x (x.weight m + Scanner.tokenWeight m x.sources + 2) (run t path x) := by
  have hopen := openFile_weight hm (x.add (.note (startNote path))) path
  unfold run
  split
  · rename_i heq
    exact .refused heq
  · rename_i y heq
    rw [heq] at hopen
    have hdrive : EndsWithin (driveRound t) (x.weight m + Scanner.tokenWeight m x.sources + 2)
        (.betweenDefinitions, y) (drive t .betweenDefinitions y) :=
      (drive_ends hm .betweenDefinitions y).mono (Nat.add_le_add_right hopen 2)
    split
    · rename_i hd
      rw [hd] at hdrive
      exact .stopped heq hdrive
    · rename_i hd
      rw [hd] at hdrive
      exact .finished heq hdrive

/-- So does a listing. -/
theorem dumpEnds (hm : t.largest + 2 ≤ m) (path : String) (sink : Sink) (x : Indexer) :
    DumpEnds t path sink x (x.weight m + Scanner.tokenWeight m x.sources + 2)
      (dumpTokens t path sink x) := by
  have hopen := openFile_weight hm x path
  unfold dumpTokens
  split
  · rename_i heq
    exact .refused heq
  · rename_i y heq
    rw [heq] at hopen
    have hlist : EndsWithin (listRound t) (x.weight m + Scanner.tokenWeight m x.sources + 2)
        (false, sink, y) (listTokens t false sink y) :=
      (listTokens_ends hm false sink y).mono (Nat.le_succ_of_le (Nat.le_succ_of_le hopen))
    split
    · rename_i hd
      rw [hd] at hlist
      exact .stopped heq hlist
    · rename_i hd
      rw [hd] at hlist
      exact .finished heq hlist

/-- **Runs and listings come to an end,** whatever the files import, wherever imports are searched
and whatever is open before: with an error, or with a summary, after a number of rounds that is
bounded by what may be read. In each round a token is read; this passes over no more sources than
are open, and every loop in it takes a byte in each of its rounds. -/
theorem run_ends (t : FileTree) (path : String) (sink : Sink) (x : Indexer) :
    let m := t.largest + 2
    let bound := x.weight m + Scanner.tokenWeight m x.sources + 2
    RunEnds t path x bound (run t path x) ∧ DumpEnds t path sink x bound (dumpTokens t path sink x) ∧
      (∀ s : Scanner,
        EndsWithin Scanner.advanceRound (s.depth + 1) (s, s.sources) (s.advance s.sources)) ∧
      ∀ c : Cursor, c.LoopsEnd := by
  intro m bound
  exact ⟨runEnds (Nat.le_refl m) path x, dumpEnds (Nat.le_refl m) path sink x,
    Scanner.advance_ends, Cursor.loopsEnd⟩

end Indexer
end ClassIndex
