/-
# A clean call has read no malformed token

What an index has recorded stays in its journal, so an error that is met in a round of a run or a
listing is counted in the summary at its end. A malformed token is such an error: a call whose
summary is clean has read none (`malformed_reported`).

| of | the reports of malformed tokens are |
| --- | --- |
| one call for a token | one if the token is malformed, else none |
| a row of calls for tokens | at least as many errors as malformed tokens |
| a run or a listing with a clean summary | none, and no token was malformed |
-/

import ClassIndex.Proofs.Indexer.Inclusion
import ClassIndex.Proofs.Indexer.Recorded
import ClassIndex.Proofs.Scanner.Malformed

namespace ClassIndex
namespace Indexer

open Diagnostic (Event Journal)

variable {t : FileTree} {path : String} {x y z : Indexer} {Q : Indexer → Prop}

/-- What recording does not take away, no step takes away. -/
theorem Invariant.of_adds
    (hQ : ∀ {x y : Indexer}, x.journal.Adds Event.Counted y.journal → Q x → Q y) :
    Invariant Q where
  nextToken {x} h := hQ ((recorded_invariant x.journal).nextToken (Journal.adds_of_eq rfl)) h
  report {x} f h := hQ ((recorded_invariant x.journal).report f (Journal.adds_of_eq rfl)) h
  reportToken {x} f h :=
    hQ ((recorded_invariant x.journal).reportToken f (Journal.adds_of_eq rfl)) h
  openFile {x} t path h :=
    hQ ((recorded_invariant x.journal).openFile t path (Journal.adds_of_eq rfl)) h
  openImport {x} t name h :=
    hQ ((recorded_invariant x.journal).openImport t name (Journal.adds_of_eq rfl)) h
  declareClass {x} name h :=
    hQ ((recorded_invariant x.journal).declareClass name (Journal.adds_of_eq rfl)) h
  writeLine {x} sink line h :=
    hQ ((recorded_invariant x.journal).writeLine sink line (Journal.adds_of_eq rfl)) h
  refusal {x} e h := hQ ((recorded_invariant x.journal).refusal e (Journal.adds_of_eq rfl)) h
  note {x} e h := hQ ((recorded_invariant x.journal).note e (Journal.adds_of_eq rfl)) h

/-- Errors that are recorded stay recorded. -/
theorem errors_invariant (n : Nat) : Invariant fun x => n ≤ x.journal.errors :=
  .of_adds fun {x y} ⟨events, hy, _⟩ hx => by
    rw [Journal.errors, hy, List.countP_append]
    exact Nat.le_add_right_of_le hx

/-- **What holds behind a token that a loop reads holds at the end of the loop.** -/
theorem Invariant.of_visits {σ : Type} {round : σ → σ ⊕ (Except IndexError Unit × Indexer)}
    {s p : σ} {n : Nat} {r : Except IndexError Unit × Indexer} (index : σ → Indexer)
    (hQ : Invariant Q)
    (hround : ∀ s, Q (index s).nextToken.2 → Q ((round s).elim index Prod.snd))
    (hrun : EndsWithin round n s r) (hvisits : Visits round s p) (hp : Q (index p).nextToken.2) :
    Q r.2 := by
  have hnext := hround p hp
  obtain ⟨q, hgo, hends⟩ | hstop := (hrun.of_visits hvisits).round_cases
  · rw [hgo] at hnext
    exact Invariant.loop index (fun s hs => hround s (hQ.nextToken hs)) hends hnext
  · rwa [hstop] at hnext

/-- Behind a malformed token an error is recorded. -/
theorem errors_nextToken (h : z.nextToken.1 = .error) : 1 ≤ z.nextToken.2.journal.errors := by
  change z.scanner.next.1 = .error at h
  have hnext := Scanner.errors_next z.scanner
  rw [if_pos h] at hnext
  exact Nat.le_trans (Nat.le_add_left 1 _) hnext

/-- A run that reads a malformed token is not clean. -/
theorem run_reads {s : Summary} (hrun : run t path x = (.ok s, y)) (hclean : s.isClean = true)
    {start : Indexer} (hopen : (x.add (.note (startNote path))).openFile t path = (.ok (), start))
    {place : Place} (hvisits : Visits (driveRound t) (.betweenDefinitions, start) (place, z)) :
    z.nextToken.1 ≠ .error := by
  intro hk
  have hends := runEnds (Nat.le_refl (t.largest + 2)) path x
  rw [hrun] at hends
  cases hends with
  | @finished start' z' hopen' hloop =>
    cases hopen.symm.trans hopen'
    have herrors := (errors_invariant 1).of_visits Prod.snd
      (fun s hs => by rw [driveRound_state]; exact (errors_invariant 1).take t _ _ hs)
      hloop hvisits (errors_nextToken hk)
    have hnone : z'.journal.errors = 0 := eq_of_beq hclean
    exact absurd herrors (by rw [hnone]; exact Nat.not_succ_le_zero 0)

/-- A listing that reads a malformed token is not clean. -/
theorem dumpTokens_reads {s : Summary} {sink left : Sink} {afterImport : Bool}
    (hdump : dumpTokens t path sink x = (.ok s, y)) (hclean : s.isClean = true) {start : Indexer}
    (hopen : x.openFile t path = (.ok (), start))
    (hvisits : Visits (listRound t) (false, sink, start) (afterImport, left, z)) :
    z.nextToken.1 ≠ .error := by
  intro hk
  have hends := dumpEnds (Nat.le_refl (t.largest + 2)) path sink x
  rw [hdump] at hends
  cases hends with
  | finished hopen' hloop =>
    cases hopen.symm.trans hopen'
    have herrors := (errors_invariant 1).of_visits (fun s => s.2.2)
      (fun s hs => by rw [listRound_state]; exact (errors_invariant 1).listNext t _ _ hs)
      hloop hvisits (errors_nextToken hk)
    have hnone : y.journal.errors = 0 := eq_of_beq hclean
    exact absurd herrors (by rw [hnone]; exact Nat.not_succ_le_zero 0)

/-- **A malformed token and its report come together.** A call for a token records one such report
if it answers with a malformed token, and none if it does not; so calls add as many errors as they
answer with malformed tokens, or more; and no call for a token in a run or in a listing with a clean
summary answers with one. -/
theorem malformed_reported :
    (∀ s : Scanner, s.observe.diagnostics.countP (·.isMalformed) =
      if s.next.1 = .error then 1 else 0) ∧
    (∀ (s : Scanner) (n : Nat),
      s.journal.errors + ((List.range n).map fun k => (s.stream k).kind).count .error
        ≤ (s.after n).journal.errors) ∧
    (∀ (t : FileTree) (path : String) (x y start : Indexer) (s : Summary),
      run t path x = (.ok s, y) → s.isClean = true →
      (x.add (.note (startNote path))).openFile t path = (.ok (), start) →
      ∀ place z, Visits (driveRound t) (.betweenDefinitions, start) (place, z) →
        z.nextToken.1 ≠ .error) ∧
    ∀ (t : FileTree) (path : String) (sink : Sink) (x y start : Indexer) (s : Summary),
      dumpTokens t path sink x = (.ok s, y) → s.isClean = true →
      x.openFile t path = (.ok (), start) →
      ∀ afterImport left z, Visits (listRound t) (false, sink, start) (afterImport, left, z) →
        z.nextToken.1 ≠ .error := by
  refine ⟨Scanner.observe_malformed, Scanner.errors_after, ?_, ?_⟩
  · intro t path x y start s hrun hclean hopen place z hvisits
    exact run_reads hrun hclean hopen hvisits
  · intro t path sink x y start s hdump hclean hopen afterImport left z hvisits
    exact dumpTokens_reads hdump hclean hopen hvisits

/-- A run of a class with an ignored byte in front is clean, and so is every token that it reads. -/
theorem malformed_reported_class :
    let t : FileTree := ⟨[], [(["a.g"], Text.utf8 "# class A;")]⟩
    let x : Indexer := new default ⟨[], []⟩ .empty
    ∃ start s y, (x.add (.note (startNote "a.g"))).openFile t "a.g" = (.ok (), start) ∧
      run t "a.g" x = (.ok s, y) ∧ s.isClean = true ∧
      start.nextToken.1 = .classWord ∧
      ∀ place z, Visits (driveRound t) (.betweenDefinitions, start) (place, z) →
        z.nextToken.1 ≠ .error := by
  intro t x
  let start := ((x.add (.note (startNote "a.g"))).openFile t "a.g").2
  have hopen : (x.add (.note (startNote "a.g"))).openFile t "a.g" = (.ok (), start) := rfl
  obtain ⟨hloop, hfirst⟩ : (loop (driveRound t) 4 (.betweenDefinitions, start)).map
      (fun r => (r.1.toOption, r.2.summary, r.2.symbols.table.keys))
        = some (some (), ⟨0, 1, 3, 1, 1⟩, ["$A"]) ∧ start.nextToken.1 = .classWord := by
    decide +kernel
  obtain ⟨y, hrun, -⟩ := run_of_loop hopen hloop
  exact ⟨start, _, y, hopen, hrun, rfl, hfirst,
    malformed_reported.2.2.1 t "a.g" x y start _ hrun rfl hopen⟩

end Indexer
end ClassIndex
