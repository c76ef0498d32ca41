/-
# No stop goes unreported

Where a call stops with an error, the journal has told of it: the last diagnostic recorded has the
code of the error and the words of its cause (`stops_reported`). Only a failed write records
nothing. The codes of what refuses a source require a halt, and no other diagnostic that a call
records does:

| recorded | code | requires a halt |
| --- | --- | --- |
| faults in a source | `E020` … `E026`, `E029`, `E030` | no |
| an import named with its extension | `W005` | no |
| a class declared twice | `E040` | no |
| an import that is not found, the call stops | `E005`, `E012` | no |
| a source that is not opened, the call stops | `E027`, `E028` | yes |
-/

import ClassIndex.Proofs.Indexer.Calls
import ClassIndex.Proofs.Indexer.Located
import ClassIndex.Proofs.Scanner.Faults

namespace ClassIndex

open Diagnostic (Event Journal)

/-- The words of the cause. -/
def IndexError.cause : IndexError → String
  | .scanner e => e.message
  | .imports e => e.message
  | .symbols e => e.message
  | .output message => message

/-- An event that requires no halt. -/
def Diagnostic.Event.Harmless (e : Event) : Prop := e.isFatal = false

/-- A diagnostic that tells of an error. -/
structure Diagnostic.Event.TellsOf (d : Event) (e : IndexError) : Prop where
  level : d.level = .error
  code : d.code = e.code
  message : d.message = e.cause

namespace Diagnostic.Journal

variable {j j' : Journal}

theorem Adds.hasFatal (h : j.Adds Event.Harmless j') : j'.hasFatal = j.hasFatal := by
  obtain ⟨events, hevents, hharmless⟩ := h
  have hnone : events.any (·.isFatal) = false := by simpa [Event.Harmless] using hharmless
  rw [Journal.hasFatal, Journal.hasFatal, hevents, List.any_append, hnone, Bool.or_false]

theorem hasFatal_concat {d : Event} (h : j'.diagnostics = j.diagnostics ++ [d]) :
    j'.hasFatal = (j.hasFatal || d.isFatal) := by
  simp [Journal.hasFatal, h]

end Diagnostic.Journal

namespace Diagnostic.Event.TellsOf

variable {d : Event}

/-- A diagnostic that tells of a refused source requires a halt. -/
theorem isFatal_of_scanner {e : OpenError} (h : d.TellsOf (.scanner e)) : d.isFatal = true := by
  have hcode : Diagnostic.requiresHalt e.code = true := by cases e <;> rfl
  rw [Event.isFatal, Event.isError, Event.requiresHalt, h.level, h.code]
  exact hcode

/-- One that tells of an import that is not found does not. -/
theorem isFatal_of_imports {e : ImportError} (h : d.TellsOf (.imports e)) : d.isFatal = false := by
  have hcode : Diagnostic.requiresHalt e.code = false := by cases e <;> rfl
  rw [Event.isFatal, Event.isError, Event.requiresHalt, h.level, h.code]
  exact hcode

end Diagnostic.Event.TellsOf

/-! ## Harmless diagnostics -/

/-- No fault in a source requires a halt. -/
theorem Fault.harmless (f : Fault) (l : Location) : (f.event l).Harmless := by
  have hcode : Diagnostic.requiresHalt f.code = false := by cases f <;> rfl
  have hhalt : (f.event l).requiresHalt = false := hcode
  rw [Event.Harmless, Event.isFatal, hhalt, Bool.and_false]

/-- A call for a token records no more than faults. -/
theorem Scanner.next_harmless (s : Scanner) : s.journal.Adds Event.Harmless s.next.2.journal :=
  s.next_faults.of_faults Fault.harmless

/-- No call on a symbol table records what requires a halt. -/
theorem Register.Answers.harmless {r r' : Register} {call : SymbolTable.Call}
    {a : SymbolTable.Answer} {events : List Event} (h : r.Answers call a events r') :
    ∀ e ∈ events, e.Harmless := by
  cases h with
  | declareMismatch _ he hevent | declarePresent _ _ he hevent | updateAbsent _ he hevent
  | updateMismatch _ _ he hevent | resolveAbsent _ he hevent =>
    rw [hevent.eq_event, he]
    exact List.forall_mem_singleton.2 rfl
  | _ => exact List.forall_mem_nil _

namespace Indexer

/-- An index goes on to another, whose journal tells of the error that has stopped a call, if any
has. Everything else that is recorded is harmless. A failed write is of a line that may be written
from an index of a kind. -/
inductive Tells (W : Sink → Indexer → Prop) (x : Indexer) : Option IndexError → Indexer → Prop
  | done {y : Indexer} : x.journal.Adds Event.Harmless y.journal → Tells W x none y
  | scanner {e : OpenError} {d : Event} {j : Journal} {y : Indexer} :
      x.journal.Adds Event.Harmless j → d.TellsOf (.scanner e) →
      y.journal.diagnostics = j.diagnostics ++ [d] → Tells W x (some (.scanner e)) y
  | imports {e : ImportError} {d : Event} {j : Journal} {y : Indexer} :
      x.journal.Adds Event.Harmless j → d.TellsOf (.imports e) →
      y.journal.diagnostics = j.diagnostics ++ [d] → Tells W x (some (.imports e)) y
  | output {message line : String} {sink : Sink} {y z : Indexer} : W sink z →
      x.journal.Adds Event.Harmless z.journal →
      z.writeLine sink line = (.error (.output message), y) →
      Tells W x (some (.output message)) y

variable {t : FileTree} {p : ScanPreferences} {w : SearchPath} {path : String} {x y z : Indexer}
  {sink : Sink} {W : Sink → Indexer → Prop} {e? : Option IndexError}

/-- Writing a line, or failing to, records nothing. -/
theorem diagnostics_writeLine {line : String} {result : Except IndexError Sink}
    (h : x.writeLine sink line = (result, y)) : y.journal.diagnostics = x.journal.diagnostics := by
  obtain rfl : (x.writeLine sink line).2 = y := congrArg Prod.snd h
  exact (Journal.diagnostics_add ..).trans (List.append_nil _)

namespace Tells

theorem adds (h : Tells W x none y) : x.journal.Adds Event.Harmless y.journal := by
  cases h with
  | done h => exact h

/-- What is harmless may come before. -/
theorem after (h' : Tells W y e? z) (h : x.journal.Adds Event.Harmless y.journal) :
    Tells W x e? z := by
  cases h' with
  | done hadds => exact .done (h.trans hadds)
  | scanner hadds htells hlast => exact .scanner (h.trans hadds) htells hlast
  | imports hadds htells hlast => exact .imports (h.trans hadds) htells hlast
  | output hW hadds hwrite => exact .output hW (h.trans hadds) hwrite

/-- **Only a refused source requires a halt.** -/
theorem hasFatal_iff (h : Tells W x e? y) : y.journal.hasFatal = true ↔
    x.journal.hasFatal = true ∨ ∃ e, e? = some (.scanner e) := by
  cases h with
  | done hadds => simp [hadds.hasFatal]
  | scanner hadds htells hlast => simp [Journal.hasFatal_concat hlast, htells.isFatal_of_scanner]
  | imports hadds htells hlast =>
    simp [Journal.hasFatal_concat hlast, htells.isFatal_of_imports, hadds.hasFatal]
  | output _ hadds hwrite =>
    simp [(hadds.trans (Journal.adds_of_eq (diagnostics_writeLine hwrite))).hasFatal]

end Tells

/-! ## One token -/

theorem adds_harmless (j : Journal) (f : Fault) (l : Location) :
    j.Adds Event.Harmless (j.addDiagnostics [f.event l]) :=
  (j.adds_fault f l).of_faults Fault.harmless

/-- A file that is not opened is told of. -/
theorem openFile_tells (t : FileTree) (path : String) (x : Indexer) :
    Tells W x (error? (x.openFile t path).1) (x.openFile t path).2 := by
  rcases openFile_cases t path x with ⟨bytes, failure?, -, hopen⟩ | ⟨e, hopen⟩
  · rw [hopen]
    exact .done (Journal.adds_of_eq (Scanner.diagnostics_suspend ..))
  · rw [hopen]
    exact .scanner (Journal.adds_of_eq rfl) ⟨rfl, rfl, rfl⟩ (Journal.diagnostics_add ..)

/-- An import that is not found or not opened is told of. -/
theorem openImport_tells (t : FileTree) (name : String) (x : Indexer) :
    Tells W x (error? (x.openImport t name).1) (x.openImport t name).2 := by
  unfold openImport
  split
  · exact .imports (Journal.adds_of_eq rfl) ⟨rfl, rfl, rfl⟩ (Journal.diagnostics_add ..)
  · rename_i found _
    refine (openFile_tells t found.path _).after (adds_sayFound (fun j => ?_) name found)
    -- a warning requires no halt, whatever its code
    exact Journal.adds_add fun _ he => Option.mem_some.1 he ▸ rfl

/-- A class that is declared twice requires no halt. -/
theorem declareClass_harmless {r : Register} (hr : x.symbols.Keeps r) (name : String) :
    x.journal.Adds Event.Harmless (x.declareClass name).2.journal :=
  let ⟨_, _, events, ha, hd⟩ := declareClass_answers hr name
  ⟨events, hd, ha.harmless⟩

/-- The error that has stopped a run. -/
def Course.error? : Course → Option IndexError
  | .goOn _ _ => none
  | .stop result _ => Indexer.error? result

/-- The error that has stopped a listing. -/
def ListCourse.error? : ListCourse → Option IndexError
  | .goOn .. => none
  | .stop result _ => Indexer.error? result

/-- **A token that stops a run is told of,** and no token harms the symbols. -/
theorem take_tells (h : Known p w x) (t : FileTree) (place : Place) (kind : Token.Kind) :
    Tells W x (take t place kind x).error? (take t place kind x).state ∧
      Known p w (take t place kind x).state := by
  rcases course_cases t place kind with ⟨rfl, rfl⟩ | ⟨rfl, rfl⟩ | ⟨c, hc, htake⟩
  · obtain ⟨keys, hknows⟩ := h
    obtain ⟨r, hr, rfl⟩ := hknows.symbols
    have hadds := declareClass_harmless hr x.scanner.lexemeText
    obtain ⟨y, htake, hy, -, hy'⟩ := hknows.declares t rfl
    rw [hy] at hadds
    rw [htake]
    exact ⟨.done hadds, _, hy'⟩
  · have htells := openImport_tells (W := W) t x.scanner.lexemeText x
    have hy := h.openImport t x.scanner.lexemeText
    rw [take, followImport, if_pos rfl]
    split
    all_goals
      rename_i hopen
      rw [hopen] at htells hy
      exact ⟨htells, hy⟩
  · obtain ⟨y, hx, hy⟩ := htake x
    have hcourse : (c y).error? = none ∧ (c y).state = y := by
      rcases hc with ⟨rfl, -⟩ | ⟨place', rfl⟩ <;> exact ⟨rfl, rfl⟩
    rw [hx, hcourse.1, hcourse.2]
    rcases hy with rfl | ⟨f, -, rfl | rfl⟩
    · exact ⟨.done (Journal.adds_of_eq rfl), h⟩
    · exact ⟨.done (adds_harmless ..), h.congr rfl rfl rfl⟩
    · exact ⟨.done (adds_harmless ..), h.congr rfl rfl rfl⟩

theorem error_writeLine {line : String} {e : IndexError}
    (h : (x.writeLine sink line).1 = .error e) : e = .output Sink.full := by
  unfold writeLine at h
  dsimp only at h
  split at h
  · exact (Except.error.inj h).symm
  · cases h

/-- **A token that stops a listing is told of,** unless its line could not be written. -/
theorem listNext_tells (h : Known p w x) (t : FileTree) (afterImport : Bool)
    (hW : W sink x.nextToken.2) :
    Tells W x (listNext t afterImport sink x).error? (listNext t afterImport sink x).state ∧
      Known p w (listNext t afterImport sink x).state := by
  have hnext : x.journal.Adds Event.Harmless x.nextToken.2.journal := Scanner.next_harmless _
  have hread := h.nextToken
  unfold listNext
  generalize x.nextToken = next at hnext hread hW ⊢
  obtain ⟨kind, y⟩ := next
  dsimp only at hnext hread hW ⊢
  have hwritten : Known p w (y.writeLine sink (y.listed kind).shown).2 := hread.congr rfl rfl rfl
  unfold listToken
  rcases hwrite : y.writeLine sink (y.listed kind).shown with ⟨e | left, z⟩
  all_goals
    rw [hwrite] at hwritten
    dsimp only
    split
    · exact ⟨.done hnext, hread⟩
  · obtain rfl : e = .output Sink.full := error_writeLine (congrArg Prod.fst hwrite)
    exact ⟨.output hW hnext hwrite, hwritten⟩
  · have hline : y.journal.Adds Event.Harmless z.journal :=
      Journal.adds_of_eq (diagnostics_writeLine hwrite)
    have hfollow : Tells W z (error? (followListed t afterImport kind z).1)
          (followListed t afterImport kind z).2 ∧
        Known p w (followListed t afterImport kind z).2 := by
      unfold followListed
      split
      · exact ⟨openImport_tells .., hwritten.openImport ..⟩
      · exact ⟨.done (Journal.adds_of_eq rfl), hwritten⟩
    rcases hopen : followListed t afterImport kind z with ⟨_ | _, z'⟩
    all_goals
      rw [hopen] at hfollow
      exact ⟨hfollow.1.after (hnext.trans hline), hfollow.2⟩

/-! ## A loop -/

/-- What is told of in each round of a loop is told of after it. -/
theorem loop_tells {σ : Type} {round : σ → σ ⊕ (Except IndexError Unit × Indexer)}
    (index : σ → Indexer) {s : σ}
    (hround : ∀ q, Visits round s q → Known p w (index q) →
      Tells W (index q) ((round q).elim (fun _ => none) fun r => error? r.1)
          ((round q).elim index Prod.snd) ∧
        Known p w ((round q).elim index Prod.snd))
    (hs : Known p w (index s)) {n : Nat} {r : Except IndexError Unit × Indexer}
    (hrun : EndsWithin round n s r) : Tells W (index s) (error? r.1) r.2 ∧ Known p w r.2 := by
  refine EndsWithin.induct
    (I := fun q => (index s).journal.Adds Event.Harmless (index q).journal ∧ Known p w (index q))
    (Q := fun r => Tells W (index s) (error? r.1) r.2 ∧ Known p w r.2) hrun
    ⟨Journal.adds_of_eq rfl, hs⟩ ?_ ?_
  · rintro q q' hvisits ⟨hadds, hq⟩ hgo
    have hnext := hround q hvisits hq
    rw [hgo] at hnext
    exact ⟨hadds.trans hnext.1.adds, hnext.2⟩
  · rintro q r hvisits ⟨hadds, hq⟩ hstop
    have hlast := hround q hvisits hq
    rw [hstop] at hlast
    exact ⟨hlast.1.after hadds, hlast.2⟩

theorem driveRound_tells (t : FileTree) (s : Place × Indexer) (h : Known p w s.2) :
    Tells W s.2 ((driveRound t s).elim (fun _ => none) fun r => error? r.1)
        ((driveRound t s).elim Prod.snd Prod.snd) ∧
      Known p w ((driveRound t s).elim Prod.snd Prod.snd) := by
  obtain ⟨place, x⟩ := s
  obtain ⟨htells, hknown⟩ := take_tells (W := W) h.nextToken t place x.nextToken.1
  have hnext : x.journal.Adds Event.Harmless x.nextToken.2.journal := Scanner.next_harmless _
  have htells := htells.after hnext
  unfold driveRound
  dsimp only
  split
  all_goals
    rename_i htake
    rw [htake] at htells hknown
    exact ⟨htells, hknown⟩

theorem listRound_tells (t : FileTree) (s : Bool × Sink × Indexer) (h : Known p w s.2.2)
    (hW : W s.2.1 s.2.2.nextToken.2) :
    Tells W s.2.2 ((listRound t s).elim (fun _ => none) fun r => error? r.1)
        ((listRound t s).elim (fun s => s.2.2) Prod.snd) ∧
      Known p w ((listRound t s).elim (fun s => s.2.2) Prod.snd) := by
  obtain ⟨afterImport, sink, x⟩ := s
  obtain ⟨htells, hknown⟩ := listNext_tells h t afterImport hW
  unfold listRound
  dsimp only
  split
  all_goals
    rename_i hlist
    rw [hlist] at htells hknown
    exact ⟨htells, hknown⟩

/-! ## Whole calls -/

/-- An index from which a call may write a line to an output: behind each token that is listed,
and for each symbol. -/
inductive Writing (x : Indexer) : Call → Sink → Indexer → Prop
  | token {t : FileTree} {path : String} {sink left : Sink} {afterImport : Bool} {y z : Indexer} :
      x.openFile t path = (.ok (), y) →
      Visits (listRound t) (false, sink, y) (afterImport, left, z) →
      Writing x (.dump t path sink) left z.nextToken.2
  | first (sink : Sink) : Writing x (.write sink) sink x
  | symbol {sink left left' : Sink} {y z : Indexer} {line : String} :
      Writing x (.write sink) left y → y.writeLine left line = (.ok left', z) →
      Writing x (.write sink) left' z

theorem openFile_known (h : Known p w x) (t : FileTree) (path : String) :
    Known p w (x.openFile t path).2 := by
  rcases openFile_cases t path x with ⟨bytes, failure?, -, hopen⟩ | ⟨e, hopen⟩
  · rw [hopen]
    exact h.congr rfl rfl (Scanner.preferences_suspend _ _)
  · rw [hopen]
    exact h.congr rfl rfl rfl

theorem run_tells (h : Known p w x) (t : FileTree) (path : String) :
    Tells W x (error? (run t path x).1) (run t path x).2 ∧ Known p w (run t path x).2 := by
  have hnote (x : Indexer) (e : Event) :
      x.journal.Adds Event.Harmless (x.add (.note e)).journal :=
    Journal.adds_of_eq (Journal.diagnostics_note ..)
  have hends := runEnds (Nat.le_refl (t.largest + 2)) path x
  generalize run t path x = r at hends ⊢
  have hstart := hnote x (startNote path)
  have hknown : Known p w (x.add (.note (startNote path))) := h.congr rfl rfl rfl
  have htells := openFile_tells (W := W) t path (x.add (.note (startNote path)))
  have hopened := openFile_known hknown t path
  have hround (q : Place × Indexer) (hq : Known p w q.2) := driveRound_tells (W := W) t q hq
  cases hends with
  | refused hopen =>
    rw [hopen] at htells hopened
    exact ⟨htells.after hstart, hopened⟩
  | stopped hopen hrun =>
    rw [hopen] at htells hopened
    obtain ⟨hlast, hz⟩ := loop_tells Prod.snd (fun q _ => hround q) hopened hrun
    exact ⟨hlast.after (hstart.trans htells.adds), hz⟩
  | finished hopen hrun =>
    rw [hopen] at htells hopened
    obtain ⟨hlast, hz⟩ := loop_tells Prod.snd (fun q _ => hround q) hopened hrun
    exact ⟨.done (((hstart.trans htells.adds).trans hlast.adds).trans (hnote _ _)),
      hz.congr rfl rfl rfl⟩

theorem dumpTokens_tells (h : Known p w x) (t : FileTree) (path : String) (sink : Sink) :
    Tells (Writing x (.dump t path sink)) x (error? (dumpTokens t path sink x).1)
        (dumpTokens t path sink x).2 ∧
      Known p w (dumpTokens t path sink x).2 := by
  have hends := dumpEnds (Nat.le_refl (t.largest + 2)) path sink x
  generalize dumpTokens t path sink x = r at hends ⊢
  have htells := openFile_tells (W := Writing x (.dump t path sink)) t path x
  have hopened := openFile_known h t path
  cases hends with
  | refused hopen =>
    rw [hopen] at htells hopened
    exact ⟨htells, hopened⟩
  | stopped hopen hrun | finished hopen hrun =>
    rw [hopen] at htells hopened
    obtain ⟨hlast, hz⟩ := loop_tells (W := Writing x (.dump t path sink)) (fun s => s.2.2)
      (fun q hvisits hq => listRound_tells t q hq (.token hopen hvisits)) hopened hrun
    exact ⟨hlast.after htells.adds, hz⟩

/-- A listing of declared symbols stops at nothing but a failed write, and records nothing. -/
theorem listSymbols_tells {r : Register} {start : Sink} {keys : List String}
    (hr : y.symbols.Keeps r) (hkeys : ∀ key ∈ keys, key ∈ r.symbols)
    (hW : Writing x (.write start) sink y) :
    Tells (Writing x (.write start)) y (error? (listSymbols sink keys y).1)
        (listSymbols sink keys y).2 ∧
      (Known p w y → Known p w (listSymbols sink keys y).2) := by
  induction keys generalizing sink y with
  | nil => exact ⟨.done (Journal.adds_of_eq rfl), id⟩
  | cons key keys ih =>
    obtain ⟨hkey, hkeys⟩ := List.forall_mem_cons.1 hkeys
    obtain ⟨s, hs⟩ := Finmap.mem_iff.1 hkey
    have hresolve : y.symbols.resolve y.journal key = (.ok s, y.journal) := by
      rw [SymbolTable.resolve, hr.lookup_eq, hs]
    have hsymbols : (y.writeLine sink (symbolLine key s)).2.symbols.Keeps r := hr
    have hknown : Known p w y → Known p w (y.writeLine sink (symbolLine key s)).2 :=
      fun h => h.congr rfl rfl rfl
    rw [listSymbols, hresolve]
    dsimp only
    rw [show y.withJournal y.journal = y from rfl]
    rcases hwrite : y.writeLine sink (symbolLine key s) with ⟨e | left, z⟩
    all_goals rw [hwrite] at hsymbols hknown
    · obtain rfl : e = .output Sink.full := error_writeLine (congrArg Prod.fst hwrite)
      exact ⟨.output hW (Journal.adds_of_eq rfl) hwrite, hknown⟩
    · obtain ⟨htells, hz⟩ := ih hsymbols hkeys (.symbol hW hwrite)
      have hline := diagnostics_writeLine hwrite
      exact ⟨htells.after (Journal.adds_of_eq hline), hz ∘ hknown⟩

/-- **Every call that stops is told of,** and no call harms the symbols. -/
theorem answer_tells (h : Known p w x) (call : Call) :
    Tells (Writing x call) x (x.answer call).1.error? (x.answer call).2 ∧
      Known p w (x.answer call).2 := by
  cases call with
  | run t path => exact run_tells h t path
  | dump t path sink => exact dumpTokens_tells h t path sink
  | write sink =>
    obtain ⟨keys, hknows⟩ := h
    obtain ⟨r, hr, rfl⟩ := hknows.symbols
    have hkeys : ∀ key ∈ x.symbols.names, key ∈ r.symbols := fun key => (hr.mem_names key).1
    obtain ⟨htells, hy⟩ := listSymbols_tells (p := p) (w := w) hr hkeys (.first sink)
    exact ⟨htells, hy ⟨_, hknows⟩⟩

/-! ## A row of calls -/

theorem Known.after (h : Known p w x) (calls : List Call) : Known p w (x.after calls) := by
  induction calls generalizing x with
  | nil => exact h
  | cons call calls ih => exact ih (answer_tells h call).2

/-- An error is reported as one that has stopped a call: as the last diagnostic recorded, with its
code and the words of its cause. A failed write is reported by nothing. -/
def Reported (x : Indexer) (call : Call) (y : Indexer) : IndexError → Prop
  | .output message => ∃ sink z line, Writing x call sink z ∧
      z.writeLine sink line = (.error (.output message), y) ∧
      y.journal.diagnostics = z.journal.diagnostics
  | e => ∃ events d, y.journal.diagnostics = x.journal.diagnostics ++ events ++ [d] ∧ d.TellsOf e

theorem Tells.reported {call : Call} {e : IndexError} (h : Tells (Writing x call) x (some e) y) :
    Reported x call y e ∧ ∀ s, e ≠ .symbols s := by
  cases h with
  | scanner hadds htells hlast | imports hadds htells hlast =>
    obtain ⟨events, hevents, -⟩ := hadds
    exact ⟨⟨events, _, by rw [hlast, hevents], htells⟩, nofun⟩
  | output hW hadds hwrite =>
    exact ⟨⟨_, _, _, hW, hwrite, diagnostics_writeLine hwrite⟩, nofun⟩

/-- **No stop goes unreported.** Whatever an index has been asked before, an error that stops a call
is the last thing that the call has recorded, under its code and in the words of its cause, but for
a failed write, which records nothing. No call stops with an error of the symbols, and a halt is
required after a call if it was before, or if a source was refused: on a new index with an empty
journal just if a source was refused. -/
theorem stops_reported (preferences : ScanPreferences) (searchPath : SearchPath) (journal : Journal)
    (earlier : List Call) (call : Call) :
    let x := (new preferences searchPath journal).after earlier
    let y := (x.answer call).2
    (∀ e, (x.answer call).1.error? = some e → Reported x call y e ∧ ∀ s, e ≠ .symbols s) ∧
      (y.journal.hasFatal = true ↔
        x.journal.hasFatal = true ∨ ∃ e, (x.answer call).1.error? = some (.scanner e)) := by
  intro x y
  obtain ⟨htells, -⟩ := answer_tells ((Known.new preferences searchPath journal).after earlier) call
  refine ⟨fun e he => ?_, htells.hasFatal_iff⟩
  rw [he] at htells
  exact htells.reported

end Indexer

end ClassIndex
