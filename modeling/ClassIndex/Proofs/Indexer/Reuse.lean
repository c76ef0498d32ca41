/-
# An index that is used again

An index may be asked for one run after another. Where no source is open before a run, it goes as
it would on a new index: it reads the file at its path and what is imported from there, token by
token, and adds the keys that it would add there (`run_again`). No source is open behind calls
that have come to their end (`sources_after`), so every run goes like that behind such calls
(`run_after_completed`).

A call that stops with an error leaves the sources open that it was in, and the next run goes on
with them behind its own path (`stopped_source_is_read_on`).

| open before the run | what the run reads |
| --- | --- |
| no source | the file at its path, and its imports |
| what a call has left that stopped | the same, and behind it the rest of what was left |
-/

import ClassIndex.Proofs.Indexer.Stops

namespace ClassIndex
namespace Indexer

/-- A file that a run draws on, where its loop starts with this index: that at its path, and every
one that is imported from a file it draws on. -/
inductive DrawsOn (t : FileTree) (w : SearchPath) (path : String) (start : Indexer) : String → Prop
  | self : DrawsOn t w path start path
  | imported {z : Indexer} {found : FoundImport} :
      Visits (driveRound t) (.betweenDefinitions, start) (.behindImport, z) →
      z.nextToken.1 = .quoted →
      DrawsOn t w path start z.nextToken.2.scanner.tokenLocation.file →
      w.resolve t z.nextToken.2.scanner.lexemeText = .ok found →
      DrawsOn t w path start found.path

/-- An index in the course of a run: its sources stand in their texts, and each is of a file that
the run draws on. -/
structure Drawing (t : FileTree) (p : ScanPreferences) (w : SearchPath) (path : String)
    (start x : Indexer) : Prop where
  known : Known p w x
  stacked : ∃ main texts, Stacked t main texts x
  drawn : ∀ f ∈ x.sources, DrawsOn t w path start f.name

/-- Two indexes with the same sources, where the first has some keys that the second lacks. -/
structure Alongside (p : ScanPreferences) (w : SearchPath) (more : Set String) (x y : Indexer) :
    Prop where
  sources : x.sources = y.sources
  keys : ∃ keys, Knows p w (more ∪ keys) x ∧ Knows p w keys y

/-- What two indexes come to is the same, and they are related as it leaves them. -/
inductive Course.Both (R : Indexer → Indexer → Prop) : Course → Course → Prop
  | goOn {place : Place} {x y : Indexer} : R x y → Both R (.goOn place x) (.goOn place y)
  | stop {result : Except IndexError Unit} {x y : Indexer} :
      R x y → Both R (.stop result x) (.stop result y)

/-- Every call of a row comes to its end. -/
def Completes (x : Indexer) : List Call → Prop
  | [] => True
  | call :: calls => (x.answer call).1.error? = none ∧ (x.answer call).2.Completes calls

variable {t : FileTree} {p : ScanPreferences} {w : SearchPath} {path : String}
  {place place' : Place} {kind : Token.Kind} {start x x' y z : Indexer} {more : Set String}

/-! ## What a run draws on -/

/-- An import opens the file that its name leads to, or nothing. -/
theorem openImport_sources (t : FileTree) (name : String) (x : Indexer) :
    (x.openImport t name).2.sources = x.sources ∨
      ∃ found bytes failure?, x.searchPath.resolve t name = .ok found ∧
        (x.openImport t name).2.sources = .ofBytes found.path bytes failure? :: x.sources := by
  unfold openImport
  split
  · exact .inl rfl
  · rename_i found hfound
    rcases openFile_cases t found.path (x.sayFound name found) with
      ⟨bytes, failure?, -, hopen⟩ | ⟨e, hopen⟩
    · rw [hopen]
      exact .inr ⟨found, bytes, failure?, hfound, Scanner.sources_suspend ..⟩
    · rw [hopen]
      exact .inl rfl

/-- **Only the string behind `import` opens a source.** -/
theorem take_sources (h : Known p w x) (t : FileTree) (place : Place) (kind : Token.Kind) :
    (take t place kind x).state.sources = x.sources ∨ place = .behindImport ∧ kind = .quoted ∧
      ∃ found bytes failure?, w.resolve t x.scanner.lexemeText = .ok found ∧
        (take t place kind x).state.sources = .ofBytes found.path bytes failure? :: x.sources := by
  rcases course_cases t place kind with ⟨rfl, rfl⟩ | ⟨rfl, rfl⟩ | ⟨c, hc, htake⟩
  · obtain ⟨keys, hknows⟩ := h
    obtain ⟨y, htake, -, hsources, -⟩ := hknows.declares t rfl
    rw [htake]
    exact .inl hsources
  · obtain ⟨keys, hknows⟩ := h
    have hopened := openImport_sources t x.scanner.lexemeText x
    rw [hknows.searchPath] at hopened
    rw [take, followImport, if_pos rfl]
    split
    all_goals
      rename_i hopen
      rw [hopen] at hopened
      exact hopened.imp_right fun hfound => ⟨rfl, rfl, hfound⟩
  · obtain ⟨y, hx, hy⟩ := htake x
    have hstate : (c y).state = y := by rcases hc with ⟨rfl, -⟩ | ⟨place', rfl⟩ <;> rfl
    rw [hx, hstate]
    rcases hy with rfl | ⟨f, -, rfl | rfl⟩ <;> exact .inl rfl

namespace Drawing

/-- A token is read from a file that the run draws on. -/
theorem token (h : Drawing t p w path start x) (hk : x.nextToken.1 ≠ .endOfInput) :
    ∃ name text failure?, DrawsOn t w path start name ∧ t.read name = .ok (text, failure?) ∧
      x.nextToken.2.scanner.tokenLocation.PointsInto name text := by
  obtain ⟨main, texts, hstacked⟩ := h.stacked
  obtain ⟨-, texts', hsub, hnext, htoken, -⟩ := nextToken_located hstacked
  obtain ⟨u, hu, hpoints⟩ := htoken hk
  obtain ⟨f, hf, hname⟩ := hstacked.sound.exists_source (hsub hu)
  obtain ⟨failure?, hread⟩ := hnext.read u hu
  exact ⟨u.1, u.2, failure?, hname ▸ h.drawn f hf, hread, hpoints⟩

theorem nextToken (h : Drawing t p w path start x) : Drawing t p w path start x.nextToken.2 := by
  obtain ⟨main, texts, hstacked⟩ := h.stacked
  obtain ⟨-, texts', hsub, hnext, -⟩ := nextToken_located hstacked
  refine ⟨h.known.nextToken, ⟨main, texts', hnext⟩, fun f hf => ?_⟩
  obtain ⟨u, hu, hname⟩ := hnext.sound.exists_text hf
  obtain ⟨g, hg, hname'⟩ := hstacked.sound.exists_source (hsub hu)
  exact hname ▸ hname' ▸ h.drawn g hg

/-- **A round of a run opens no source but that of an import** in a file that the run draws on. -/
theorem round (h : Drawing t p w path start x)
    (hvisits : Visits (driveRound t) (.betweenDefinitions, start) (place, x))
    (hround : driveRound t (place, x) = .inl (place', y)) : Drawing t p w path start y := by
  have hstate : (take t place x.nextToken.1 x.nextToken.2).state = y := by
    rw [← driveRound_state, hround]
    rfl
  obtain ⟨main, texts, hstacked⟩ := h.stacked
  obtain ⟨-, texts', hnext⟩ := driveRound_located hstacked place
  have hknown := (take_tells (W := fun _ _ => False) h.known.nextToken t place x.nextToken.1).2
  have hsources := take_sources h.known.nextToken t place x.nextToken.1
  rw [hstate] at hnext hknown hsources
  refine ⟨hknown, ⟨main, texts', hnext⟩, ?_⟩
  rcases hsources with hsame | ⟨rfl, hquoted, found, bytes, failure?, hfound, hopened⟩
  · rw [hsame]
    exact h.nextToken.drawn
  · obtain ⟨name, text, -, hname, -, line, column, hlocation, -⟩ :=
      h.token (by rw [hquoted]; exact nofun)
    have hfile : DrawsOn t w path start x.nextToken.2.scanner.tokenLocation.file := by
      rw [hlocation]
      exact hname
    rw [hopened]
    exact List.forall_mem_cons.2 ⟨.imported hvisits hquoted hfile hfound, h.nextToken.drawn⟩

end Drawing

/-- In every round of a run the sources are of files that it draws on. -/
theorem drawing_of_visits (hx : x.sources = []) (h : Known p w x)
    (hopen : x.openFile t path = (.ok (), start)) {s : Place × Indexer}
    (hvisits : Visits (driveRound t) (.betweenDefinitions, start) s) :
    Drawing t p w path start s.2 := by
  induction hvisits with
  | start =>
    obtain ⟨text, failure?, -, hstacked, -⟩ := stacked_of_openFile hx hopen
    have hstart := openFile_known h t path
    rw [hopen] at hstart
    refine ⟨hstart, ⟨_, _, hstacked⟩, fun f hf => ?_⟩
    obtain ⟨u, hu, hname⟩ := hstacked.sound.exists_text hf
    rw [← hname, List.mem_singleton.1 hu]
    exact .self
  | next hvisits hround ih => exact ih.round hvisits hround

/-! ## Beside a new index -/

namespace Alongside

theorem congr (h : Alongside p w more x y) (hx : x'.sources = z.sources)
    (hkx : ∀ keys, Knows p w keys x → Knows p w keys x')
    (hky : ∀ keys, Knows p w keys y → Knows p w keys z) : Alongside p w more x' z := by
  obtain ⟨keys, hk, hk'⟩ := h.keys
  exact ⟨hx, keys, hkx _ hk, hky _ hk'⟩

theorem searchPath (h : Alongside p w more x y) : x.searchPath = y.searchPath := by
  obtain ⟨keys, hk, hk'⟩ := h.keys
  exact hk.searchPath.trans hk'.searchPath.symm

/-- Both read the same token. -/
theorem nextToken (h : Alongside p w more x y) : x.nextToken.1 = y.nextToken.1 ∧
    x.nextToken.2.scanner.lexemeText = y.nextToken.2.scanner.lexemeText ∧
    Alongside p w more x.nextToken.2 y.nextToken.2 := by
  obtain ⟨keys, hk, hk'⟩ := h.keys
  have hx := Scanner.next_shows x.scanner
  have hy := Scanner.next_shows y.scanner
  have hsources : x.scanner.sources = y.scanner.sources := h.sources
  rw [hk.preferences, hsources] at hx
  rw [hk'.preferences] at hy
  refine ⟨hx.kind.trans hy.kind.symm, ?_, ?_⟩
  · exact congrArg Text.lossy (hx.lexeme.trans hy.lexeme.symm)
  · exact h.congr (hx.sources.trans hy.sources.symm)
      (fun _ hk => hk.congr rfl rfl (Scanner.preferences_next _))
      fun _ hk => hk.congr rfl rfl (Scanner.preferences_next _)

/-- What changes no symbol and no source on either side changes nothing beside each other. -/
theorem same (h : Alongside p w more x y) (hx : x'.sources = x.sources)
    (hsymbols : x'.symbols = x.symbols) (hpath : x'.searchPath = x.searchPath)
    (hpreferences : x'.scanner.preferences = x.scanner.preferences) (hz : z.sources = y.sources)
    (hsymbols' : z.symbols = y.symbols) (hpath' : z.searchPath = y.searchPath)
    (hpreferences' : z.scanner.preferences = y.scanner.preferences) : Alongside p w more x' z :=
  h.congr (hx.trans (h.sources.trans hz.symm)) (fun _ hk => hk.congr hsymbols hpath hpreferences)
    fun _ hk => hk.congr hsymbols' hpath' hpreferences'

/-- Both open a file, or neither does. -/
theorem openFile (h : Alongside p w more x y) (t : FileTree) (path : String) :
    (x.openFile t path).1 = (y.openFile t path).1 ∧
      Alongside p w more (x.openFile t path).2 (y.openFile t path).2 := by
  have hdepth : x.scanner.depth = y.scanner.depth := congrArg List.length h.sources
  by_cases hroom : maxDepth ≤ y.scanner.depth
  · simp only [Indexer.openFile, Scanner.openFile, hdepth, if_pos hroom, Scanner.refuse, true_and]
    exact h.same rfl rfl rfl rfl rfl rfl rfl rfl
  · cases hread : t.read path with
    | error e =>
      simp only [Indexer.openFile, Scanner.openFile, hdepth, if_neg hroom, hread, Scanner.refuse,
        true_and]
      exact h.same rfl rfl rfl rfl rfl rfl rfl rfl
    | ok contents =>
      obtain ⟨bytes, failure?⟩ := contents
      have hsources : (x.scanner.suspend (.ofBytes path bytes failure?)).sources
          = (y.scanner.suspend (.ofBytes path bytes failure?)).sources := by
        rw [Scanner.sources_suspend, Scanner.sources_suspend]
        exact congrArg _ h.sources
      simp only [Indexer.openFile, Scanner.openFile, hdepth, if_neg hroom, hread, true_and]
      exact h.congr hsources (fun _ hk => hk.congr rfl rfl (Scanner.preferences_suspend _ _))
        fun _ hk => hk.congr rfl rfl (Scanner.preferences_suspend _ _)

theorem openImport (h : Alongside p w more x y) (t : FileTree) (name : String) :
    (x.openImport t name).1 = (y.openImport t name).1 ∧
      Alongside p w more (x.openImport t name).2 (y.openImport t name).2 := by
  unfold Indexer.openImport
  rw [h.searchPath]
  cases y.searchPath.resolve t name with
  | error e => exact ⟨rfl, h.same rfl rfl rfl rfl rfl rfl rfl rfl⟩
  | ok found =>
    have hfound : Alongside p w more (x.sayFound name found) (y.sayFound name found) :=
      h.same rfl rfl rfl rfl rfl rfl rfl rfl
    exact hfound.openFile t found.path

/-- **A token leads to the same on both sides,** and adds the same key. -/
theorem take (h : Alongside p w more x y) (htext : x.scanner.lexemeText = y.scanner.lexemeText)
    (t : FileTree) (place : Place) (kind : Token.Kind) :
    Course.Both (Alongside p w more) (take t place kind x) (take t place kind y) := by
  rcases course_cases t place kind with ⟨rfl, rfl⟩ | ⟨rfl, rfl⟩ | ⟨c, hc, htake⟩
  · obtain ⟨keys, hk, hk'⟩ := h.keys
    obtain ⟨x', hx, -, hsources, hknows⟩ := hk.declares t htext
    obtain ⟨y', hy, -, hsources', hknows'⟩ := hk'.declares t rfl
    rw [hx, hy]
    rw [← Set.union_insert] at hknows
    exact .goOn ⟨hsources.trans (h.sources.trans hsources'.symm), _, hknows, hknows'⟩
  · obtain ⟨hresult, hleft⟩ := h.openImport t y.scanner.lexemeText
    rw [Indexer.take, Indexer.take, followImport, followImport, if_pos rfl, if_pos rfl, htext]
    rcases hx : x.openImport t y.scanner.lexemeText with ⟨result, x'⟩
    rcases hy : y.openImport t y.scanner.lexemeText with ⟨result', y'⟩
    rw [hx, hy] at hresult hleft
    obtain rfl : result = result' := hresult
    cases result with
    | error e => exact .stop hleft
    | ok => exact .goOn hleft
  · obtain ⟨x', hx, hx'⟩ := htake x
    obtain ⟨y', hy, hy'⟩ := htake y
    have hleft : Alongside p w more x' y' := by
      rcases hx' with rfl | ⟨f, -, rfl | rfl⟩ <;> rcases hy' with rfl | ⟨g, -, rfl | rfl⟩ <;>
        exact h.same rfl rfl rfl rfl rfl rfl rfl rfl
    rw [hx, hy]
    rcases hc with ⟨rfl, -⟩ | ⟨place', rfl⟩
    · exact .stop hleft
    · exact .goOn hleft

/-- The rounds of two runs keep pace. -/
theorem round (h : Alongside p w more x y) (t : FileTree) (place : Place) :
    (∃ place' x' y', driveRound t (place, x) = .inl (place', x') ∧
        driveRound t (place, y) = .inl (place', y') ∧ Alongside p w more x' y') ∨
      ∃ result x' y', driveRound t (place, x) = .inr (result, x') ∧
        driveRound t (place, y) = .inr (result, y') ∧ Alongside p w more x' y' := by
  obtain ⟨hkind, htext, hnext⟩ := h.nextToken
  have hboth := hnext.take htext t place x.nextToken.1
  simp only [driveRound, ← hkind]
  generalize Indexer.take t place x.nextToken.1 x.nextToken.2 = c at hboth
  generalize Indexer.take t place x.nextToken.1 y.nextToken.2 = c' at hboth
  cases hboth with
  | goOn hleft => exact .inl ⟨_, _, _, rfl, rfl, hleft⟩
  | stop hleft => exact .inr ⟨_, _, _, rfl, rfl, hleft⟩

theorem drive (h : Alongside p w more x y) (t : FileTree) (place : Place) :
    (drive t place x).1 = (drive t place y).1 ∧
      Alongside p w more (drive t place x).2 (drive t place y).2 := by
  have hends := drive_ends (Nat.le_refl (t.largest + 2)) place x
  obtain ⟨r, hends', hresult, hleft⟩ := hends.related
    (R := fun s (s' : Place × Indexer) => s.1 = s'.1 ∧ Alongside p w more s.2 s'.2)
    (Q := fun r (r' : Except IndexError Unit × Indexer) =>
      r.1 = r'.1 ∧ Alongside p w more r.2 r'.2)
    (show place = (place, y).1 ∧ Alongside p w more x (place, y).2 from ⟨rfl, h⟩)
    (by
      rintro ⟨place, x⟩ ⟨_, y⟩ ⟨rfl, h⟩
      rcases h.round t place with ⟨place', x', y', hx, hy, hleft⟩ | ⟨result, x', y', hx, hy, hleft⟩
      · exact .inl ⟨_, _, hx, hy, rfl, hleft⟩
      · exact .inr ⟨_, _, hx, hy, rfl, hleft⟩)
  obtain rfl := eq_of_endsWithin (drive_eq t) hends'
  exact ⟨hresult, hleft⟩

/-- **A run comes to the same on both sides.** -/
theorem run (h : Alongside p w more x y) (t : FileTree) (path : String) :
    error? (run t path x).1 = error? (run t path y).1 ∧
      Alongside p w more (run t path x).2 (run t path y).2 := by
  have hstart : Alongside p w more (x.add (.note (startNote path)))
      (y.add (.note (startNote path))) := h.same rfl rfl rfl rfl rfl rfl rfl rfl
  obtain ⟨hresult, hopened⟩ := hstart.openFile t path
  rcases hx : (x.add (.note (startNote path))).openFile t path with ⟨e | _, x'⟩
  all_goals
    rcases hy : (y.add (.note (startNote path))).openFile t path with ⟨e' | _, y'⟩
    all_goals
      rw [hx, hy] at hresult hopened
      cases hresult
  · rw [Indexer.run, Indexer.run, hx, hy]
    exact ⟨rfl, hopened⟩
  · dsimp only at hopened
    obtain ⟨hlast, hleft⟩ := hopened.drive t .betweenDefinitions
    rw [run_of_openFile hx, run_of_openFile hy]
    generalize Indexer.drive t .betweenDefinitions x' = r at hlast hleft ⊢
    generalize Indexer.drive t .betweenDefinitions y' = r' at hlast hleft ⊢
    obtain ⟨result, x''⟩ := r
    obtain ⟨_, y''⟩ := r'
    obtain rfl := hlast
    cases result with
    | error e => exact ⟨rfl, hleft⟩
    | ok => exact ⟨rfl, hleft.same rfl rfl rfl rfl rfl rfl rfl rfl⟩

end Alongside

/-! ## Calls that come to their end -/

/-- Only the end of the input ends a run without an error. -/
theorem endOfInput_of_take (h : take t place kind x = .stop (.ok ()) y) :
    kind = .endOfInput ∧ y.sources = x.sources := by
  rcases course_cases t place kind with ⟨rfl, rfl⟩ | ⟨rfl, rfl⟩ | ⟨c, hc, htake⟩
  · rw [take, nameClass, if_pos rfl] at h
    split at h <;> cases h
  · rw [take, followImport, if_pos rfl] at h
    split at h <;> cases h
  · obtain ⟨z, hz, hsame⟩ := htake x
    rcases hc with ⟨rfl, hk⟩ | ⟨place', rfl⟩ <;> cases hz.symm.trans h
    refine ⟨hk, ?_⟩
    rcases hsame with rfl | ⟨f, -, rfl | rfl⟩ <;> rfl

theorem sources_nextToken (h : x.nextToken.1 = .endOfInput) : x.nextToken.2.sources = [] := by
  rcases Scanner.next_cases x.scanner with ⟨-, -, hnil⟩ | ⟨hne, -⟩
  · exact hnil
  · exact absurd h hne

/-- Where a loop ends without an error only if no source is open, none is open after it. -/
theorem sources_of_loop {σ : Type} {round : σ → σ ⊕ (Except IndexError Unit × Indexer)} {s : σ}
    {n : Nat} (hstop : ∀ q y, round q = .inr (.ok (), y) → y.sources = [])
    (h : EndsWithin round n s (.ok (), y)) : y.sources = [] := by
  refine EndsWithin.induct (I := fun _ => True) (Q := fun r => r.1 = .ok () → r.2.sources = []) h
    trivial (fun _ _ _ => trivial) ?_ rfl
  rintro q ⟨result, z⟩ - - hround rfl
  exact hstop q z hround

theorem sources_run {s : Summary} (h : run t path x = (.ok s, y)) : y.sources = [] := by
  have hends := runEnds (Nat.le_refl (t.largest + 2)) path x
  rw [h] at hends
  cases hends with
  | @finished start z hopen hrun =>
    show z.sources = []
    refine sources_of_loop (fun q y hround => ?_) hrun
    obtain ⟨place, z⟩ := q
    simp only [driveRound] at hround
    split at hround
    · cases hround
    · rename_i htake
      cases hround
      obtain ⟨hk, hsources⟩ := endOfInput_of_take htake
      exact hsources.trans (sources_nextToken hk)

theorem sources_dumpTokens {s : Summary} {sink : Sink}
    (h : dumpTokens t path sink x = (.ok s, y)) : y.sources = [] := by
  have hends := dumpEnds (Nat.le_refl (t.largest + 2)) path sink x
  rw [h] at hends
  cases hends with
  | finished hopen hrun =>
    refine sources_of_loop (fun q y hround => ?_) hrun
    obtain ⟨afterImport, left, z⟩ := q
    simp only [listRound, listNext] at hround
    by_cases hk : z.nextToken.1 = .endOfInput
    · simp only [hk, if_pos] at hround
      cases hround
      exact sources_nextToken hk
    · simp only [if_neg hk] at hround
      rcases hlist : listToken t afterImport left z.nextToken.1 z.nextToken.2 with ⟨_ | _, z'⟩
      all_goals
        rw [hlist] at hround
        cases hround

@[simp] theorem sources_listSymbols (sink : Sink) (keys : List String) (x : Indexer) :
    (listSymbols sink keys x).2.sources = x.sources := by
  induction keys generalizing sink x with
  | nil => rfl
  | cons key keys ih =>
    rw [listSymbols]
    rcases x.symbols.resolve x.journal key with ⟨e | s, j⟩
    · rfl
    · dsimp only
      have hline := sources_writeLine (x.withJournal j) sink (symbolLine key s)
      rcases hwrite : (x.withJournal j).writeLine sink (symbolLine key s) with ⟨_ | _, y⟩
      all_goals rw [hwrite] at hline
      · exact hline
      · exact (ih _ y).trans hline

theorem sources_answer {call : Call} (hx : x.sources = []) (h : (x.answer call).1.error? = none) :
    (x.answer call).2.sources = [] := by
  cases call with
  | run t path =>
    rcases hrun : run t path x with ⟨e | s, y⟩
    · simp [answer, hrun, Answer.error?, error?] at h
    · simp only [answer, hrun]
      exact sources_run hrun
  | dump t path sink =>
    rcases hdump : dumpTokens t path sink x with ⟨e | s, y⟩
    · simp [answer, hdump, Answer.error?, error?] at h
    · simp only [answer, hdump]
      exact sources_dumpTokens hdump
  | write sink => exact (sources_listSymbols _ _ x).trans hx

/-- **No source is open behind calls that have come to their end.** -/
theorem sources_after {calls : List Call} (hx : x.sources = []) (h : x.Completes calls) :
    (x.after calls).sources = [] := by
  induction calls generalizing x with
  | nil => exact hx
  | cons call calls ih => exact ih (sources_answer hx h.1) h.2

/-! ## A run on an index that was used before -/

/-- Where no source is open, a run reads no token but from the files that it draws on. -/
theorem Known.reads_own (h : Known p w x) (hx : x.sources = [])
    (hopen : (x.add (.note (startNote path))).openFile t path = (.ok (), start))
    (hvisits : Visits (driveRound t) (.betweenDefinitions, start) (place, y))
    (hk : y.nextToken.1 ≠ .endOfInput) :
    ∃ name text failure?, DrawsOn t w path start name ∧ t.read name = .ok (text, failure?) ∧
      y.nextToken.2.scanner.tokenLocation.PointsInto name text := by
  have hnoted : Known p w (x.add (.note (startNote path))) := h.congr rfl rfl rfl
  exact (drawing_of_visits (x := x.add (.note (startNote path))) hx hnoted hopen hvisits).token hk

/-- Where no source is open, a run comes to what it comes to on a new index. -/
theorem Known.adds_own (h : Known p w x) (hx : x.sources = []) (t : FileTree) (path : String) :
    error? (run t path x).1 = error? (run t path (Indexer.new p w .empty)).1 ∧
      ∀ key, key ∈ (run t path x).2.symbols.names ↔
        key ∈ x.symbols.names ∨ key ∈ (run t path (Indexer.new p w .empty)).2.symbols.names := by
  obtain ⟨more, hmore⟩ := h
  have hbeside : Alongside p w more x (Indexer.new p w .empty) := by
    refine ⟨hx, ∅, ?_, rfl, rfl, ⟨∅, ""⟩, SymbolTable.keeps_empty, by simp⟩
    rwa [Set.union_empty]
  obtain ⟨hresult, -, keys, hrun, hfresh⟩ := hbeside.run t path
  refine ⟨hresult, fun key => ?_⟩
  rw [hrun.mem_names, hfresh.mem_names, hmore.mem_names, Set.mem_union]

/-- **Where no source is open, a run goes as on a new index.** Every token that it reads is located
in the text of the file at its path or of one imported from there. It stops with the same error, if
any, and it adds the keys that it adds to a new index, but for those that are there already. -/
theorem run_again (p : ScanPreferences) (w : SearchPath) (j : Diagnostic.Journal)
    (earlier : List Call) (t : FileTree) (path : String)
    (hclosed : ((new p w j).after earlier).sources = []) :
    let x := (new p w j).after earlier
    (∀ start, (x.add (.note (startNote path))).openFile t path = (.ok (), start) → ∀ place y,
      Visits (driveRound t) (.betweenDefinitions, start) (place, y) →
      y.nextToken.1 ≠ .endOfInput → ∃ name text failure?, DrawsOn t w path start name ∧
        t.read name = .ok (text, failure?) ∧
        y.nextToken.2.scanner.tokenLocation.PointsInto name text) ∧
    error? (run t path x).1 = error? (run t path (new p w .empty)).1 ∧
    ∀ key, key ∈ (run t path x).2.symbols.names ↔
      key ∈ x.symbols.names ∨ key ∈ (run t path (new p w .empty)).2.symbols.names := by
  intro x
  have hknown : Known p w x := (Known.new p w j).after earlier
  exact ⟨fun _ hopen _ _ => hknown.reads_own hclosed hopen, hknown.adds_own hclosed t path⟩

/-- **Behind calls that have come to their end a run goes as on a new index.** -/
theorem run_after_completed (p : ScanPreferences) (w : SearchPath) (j : Diagnostic.Journal)
    {earlier : List Call} (hdone : (new p w j).Completes earlier) (t : FileTree) (path : String) :
    let x := (new p w j).after earlier
    error? (run t path x).1 = error? (run t path (new p w .empty)).1 ∧
      ∀ key, key ∈ (run t path x).2.symbols.names ↔
        key ∈ x.symbols.names ∨ key ∈ (run t path (new p w .empty)).2.symbols.names :=
  ((Known.new p w j).after earlier).adds_own (sources_after rfl hdone) t path

/-- A run after one of a path that leads to no file and one that has declared a class. -/
theorem run_again_after_class :
    let main := Text.utf8 "import \"a\"\nclass B;\n"
    let t : FileTree := ⟨[["w"]], [(["a.g", "w"], Text.utf8 "class A;\n"), (["main.g"], main)]⟩
    let w : SearchPath := ⟨["w"], []⟩
    let x := (new default w .empty).after [.run t "none.g", .run t "w/a.g"]
    x.sources = [] ∧ "$A" ∈ x.symbols.names ∧
      ∀ key, key ∈ (run t "main.g" x).2.symbols.names ↔ key ∈ x.symbols.names ∨
        key ∈ (run t "main.g" (new default w .empty)).2.symbols.names := by
  intro main t w x
  let refused := ((new default w .empty).answer (.run t "none.g")).2
  let start := ((refused.add (.note (startNote "w/a.g"))).openFile t "w/a.g").2
  have hopen : (refused.add (.note (startNote "w/a.g"))).openFile t "w/a.g" = (.ok (), start) := rfl
  have hloop : (loop (driveRound t) 5 (.betweenDefinitions, start)).map
      (fun r => (r.1.toOption, r.2.summary, r.2.symbols.table.keys))
        = some (some (), ⟨1, 0, 3, 1, 1⟩, ["$A"]) := by decide +kernel
  obtain ⟨y, hrun, hnames⟩ := run_of_loop hopen hloop
  have hx : x = y := congrArg Prod.snd hrun
  have hclosed : x.sources = [] := hx ▸ sources_run hrun
  refine ⟨hclosed, ?_, (run_again _ _ _ [.run t "none.g", .run t "w/a.g"] t "main.g" hclosed).2.2⟩
  rw [hx, hnames]
  exact List.mem_singleton_self _

/-- **A source that a call has stopped in is read on by the next run,** which declares a class that
neither it nor the call before declares by itself. -/
theorem stopped_source_is_read_on :
    let late := Text.utf8 "import \"nowhere\"\nclass Late \x7b \x7d\n"
    let t : FileTree := ⟨[["w"]], [(["a.g"], late), (["b.g"], Text.utf8 "class B \x7b \x7d\n")]⟩
    let fresh : Indexer := new default ⟨["w"], []⟩ .empty
    let x := fresh.after [.run t "a.g"]
    "$Late" ∈ (run t "b.g" x).2.symbols.names ∧ "$Late" ∉ x.symbols.names ∧
      "$Late" ∉ (run t "b.g" fresh).2.symbols.names := by
  intro late t fresh x
  let opened (x : Indexer) (path : String) := (x.add (.note (startNote path))).openFile t path
  have hopen : opened fresh "a.g" = (.ok (), (opened fresh "a.g").2) := rfl
  have hopenB : opened fresh "b.g" = (.ok (), (opened fresh "b.g").2) := rfl
  obtain ⟨hboth, hfresh⟩ :
      ((loop (driveRound t) 2 (.betweenDefinitions, (opened fresh "a.g").2)).bind fun r =>
        let again := opened (finish "a.g" r).2 "b.g"
        (loop (driveRound t) 11 (.betweenDefinitions, again.2)).map fun r' =>
          ((finish "a.g" r).2.symbols.table.keys, again.1.toOption, r'.1.toOption,
            r'.2.summary, r'.2.symbols.table.keys))
              = some ([], some (), some (), ⟨1, 0, 10, 2, 2⟩, ["$B", "$Late"]) ∧
      (loop (driveRound t) 6 (.betweenDefinitions, (opened fresh "b.g").2)).map
        (fun r => (r.1.toOption, r.2.summary, r.2.symbols.table.keys))
          = some (some (), ⟨0, 0, 4, 1, 1⟩, ["$B"]) := by decide +kernel
  obtain ⟨r, hloop, hagain⟩ := Option.bind_eq_some_iff.1 hboth
  have hx : x = (finish "a.g" r).2 := by
    have hdrive := eq_of_endsWithin (drive_eq t) hloop
    rw [← hdrive]
    exact congrArg Prod.snd (run_of_openFile hopen)
  obtain ⟨r', hloop', hr'⟩ := Option.map_eq_some_iff.1 hagain
  rw [← hx] at hloop' hr'
  simp only [Prod.mk.injEq] at hr'
  obtain ⟨hnone, hopened, hresult, hsummary, hkeys⟩ := hr'
  have hopenAgain : opened x "b.g" = (.ok (), (opened x "b.g").2) := by
    rcases hcase : opened x "b.g" with ⟨e | _, y⟩
    · rw [hcase] at hopened
      cases hopened
    · rfl
  have hlate : (loop (driveRound t) 11 (.betweenDefinitions, (opened x "b.g").2)).map
      (fun r => (r.1.toOption, r.2.summary, r.2.symbols.table.keys))
        = some (some (), ⟨1, 0, 10, 2, 2⟩, ["$B", "$Late"]) := by
    rw [hloop', Option.map_some, hresult, hsummary, hkeys]
  obtain ⟨y, hrun, hnames⟩ := run_of_loop hopenAgain hlate
  obtain ⟨z, hrun', hnames'⟩ := run_of_loop hopenB hfresh
  refine ⟨?_, ?_, ?_⟩
  · rw [hrun, hnames]
    decide
  · rw [SymbolTable.mem_names, hnone]
    exact List.not_mem_nil
  · rw [hrun', hnames']
    decide

end Indexer
end ClassIndex
