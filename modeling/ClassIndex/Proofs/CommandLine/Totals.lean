/-
# The totals of all inputs

The runs on the inputs count what they record, each for itself, and the program keeps the same
diagnostics file by file, up to a limit for each. So its totals are those of the first diagnostics
of each path, and a warning for each path that has more (`totals_agree`):

| recorded for a path | counted as errors | counted as warnings |
| --- | --- | --- |
| at most a thousand | its errors | its warnings |
| more | the errors among the first thousand | the warnings among them, and one for the others |

An error behind a thousand warnings is counted by its run only (`errors_behind_limit`).
-/

import ClassIndex.CommandLine.Program
import ClassIndex.Proofs.Cursor.Unknown
import ClassIndex.Proofs.Diagnostic.FileLog
import ClassIndex.Proofs.Indexer.Recorded
import ClassIndex.Proofs.Json.Written

namespace ClassIndex

open Diagnostic (Event FileLog Journal PathPart)

/-! ## Counts in words -/

/-- A number that is not zero does not begin with a zero. -/
theorem Text.head?_toString {n : Nat} (h : 0 < n) : (toString n).toList.head? ≠ some '0' := by
  have hdecimal : (toString n).toList = decimal n := (signed_eq_toString n).symm
  rw [hdecimal]
  clear hdecimal
  induction n using Nat.strongRecOn with
  | ind n ih =>
    rw [decimal]
    split
    · rename_i hn
      intro hzero
      have hdigit := digitValue_digitChar hn
      rw [Option.some.inj hzero] at hdigit
      exact h.ne hdigit
    · rw [List.head?_append_of_ne_nil _ (decimal_ne_nil _)]
      exact ih (n / 10) (by omega) (by omega)

namespace CommandLine

variable {t : FileTree} {o : Options} {s : Settings} {w : SearchPath} {input : String}

/-! ## What the runs record -/

/-- The journal of the run on an input. -/
def journalOf (t : FileTree) (o : Options) (s : Settings) (w : SearchPath) (input : String) :
    Journal :=
  (process t o input (.new s.scan w .empty)).2.journal

/-- A run records nothing but errors and warnings. -/
theorem counted_of_mem {e : Event} (h : e ∈ (journalOf t o s w input).diagnostics) :
    e.Counted := by
  have hnew : Journal.empty.Adds Event.Counted (Indexer.new s.scan w .empty).journal :=
    Journal.adds_of_eq rfl
  have hkeeps := Indexer.recorded_invariant .empty
  have hprocess : Journal.empty.Adds Event.Counted (journalOf t o s w input) := by
    unfold journalOf process
    split
    · exact hkeeps.dumpTokens t input default hnew
    have hrun := hkeeps.run t input hnew
    generalize Indexer.run t input (.new s.scan w .empty) = ran at hrun ⊢
    obtain ⟨e | summary, x⟩ := ran
    · exact hrun
    have hlist := hkeeps.listSymbols default x.symbols.names hrun
    dsimp only [Indexer.writeSymbols]
    generalize Indexer.listSymbols default x.symbols.names x = listed at hlist ⊢
    split
    · obtain ⟨e | _, y⟩ := listed <;> exact hlist
    · exact hrun
  obtain ⟨events, hevents, hcounted⟩ := hprocess
  exact hcounted e (by rw [hevents] at h; exact h)

/-! ## What the program keeps -/

/-- A diagnostic with the path that it is recorded for. -/
def placed (e : Event) : String × Event := (e.file?.getD Console.unplacedFile, e)

/-- The parts of the path that a diagnostic is kept under. -/
def keptUnder (e : Event) : List PathPart := Diagnostic.pathParts (placed e).1

theorem fileLog_eq (log : FileLog) (j : Journal) :
    Console.fileLog log j = log.recordAll (j.diagnostics.map placed) := by
  rw [Console.fileLog, FileLog.recordAll, List.foldl_map]
  rfl

/-- The program keeps what the runs record, in order. -/
theorem files_foldl (console : Console) (inputs : List String) (p : Progress) :
    (inputs.foldl (processInput t o s w console) p).files = p.files.recordAll
      ((inputs.flatMap fun input => (journalOf t o s w input).diagnostics).map placed) := by
  induction inputs generalizing p with
  | nil => rfl
  | cons input inputs ih =>
    have hfiles : (processInput t o s w console p input).files
        = p.files.recordAll ((journalOf t o s w input).diagnostics.map placed) := by
      rw [← fileLog_eq, journalOf]
      unfold processInput
      rcases process t o input (.new s.scan w .empty) with ⟨_ | _, x⟩ <;> rfl
    rw [List.foldl_cons, ih, hfiles, List.flatMap_cons, List.map_append, FileLog.recordAll_append]

theorem recordedFor_placed (events : List Event) (key : List PathPart) :
    FileLog.recordedFor (events.map placed) key = events.filter (keptUnder · = key) := by
  rw [FileLog.recordedFor, List.filter_map, List.map_map]
  exact List.map_id _

/-- The totals are printed if there are several inputs with something to count. -/
theorem out_conclude {p : Progress} (hinputs : 1 < o.inputs.length)
    (hcounts : 0 < p.files.totals.errors ∨ 0 < p.files.totals.warnings) :
    ∃ rest, (conclude o s p).out = p.streams.out ++ ("total: errors: "
      ++ toString p.files.totals.errors ++ " warnings: " ++ toString p.files.totals.warnings
      ++ rest) := by
  have hsay : (decide (1 < o.inputs.length) && (decide (0 < p.files.totals.errors)
      || decide (0 < p.files.totals.warnings))) = true := by simp [hinputs, hcounts]
  unfold conclude
  dsimp only
  rw [if_pos hsay]
  split
  all_goals
    simp only [Streams.say, Journal.countsText, String.append_assoc]
    exact ⟨_, rfl⟩

/-- What processing all inputs has come to. -/
def progress (env : Environment) (t : FileTree) (time : String) (o : Options) (s : Settings)
    (streams : Streams) : Progress :=
  let console := Console.ofPreferences s.log time
  o.inputs.foldl (processInput t o s (Settings.searchPathOf env s.imports) console)
    ⟨console.showEntry streams (.note readyNote), .empty, false⟩

/-- What the runs on all inputs record, in order. -/
def recorded (env : Environment) (t : FileTree) (o : Options) (s : Settings) : List Event :=
  (o.inputs.map (journalOf t o s (Settings.searchPathOf env s.imports))).flatMap (·.diagnostics)

section

variable (env : Environment) (t : FileTree) (time : String) (o : Options) (s : Settings)
  (streams : Streams)

theorem holds_progress : FileLog.Holds (progress env t time o s streams).files.files
    ((recorded env t o s).map placed) := by
  have hfiles : (progress env t time o s streams).files
      = FileLog.recordAll .empty ((recorded env t o s).map placed) := by
    refine (files_foldl _ o.inputs _).trans ?_
    rw [recorded, List.flatMap_map]
  rw [hfiles]
  exact FileLog.holds_recordAll _

theorem keys_placed (events : List Event) :
    ((events.map placed).map fun r => Diagnostic.pathParts r.1) = events.map keptUnder :=
  List.map_map

theorem errors_progress : (progress env t time o s streams).files.totals.errors
    = ∑ key ∈ ((recorded env t o s).map keptUnder).toFinset,
      (((recorded env t o s).filter (keptUnder · = key)).take FileLog.limit).countP (·.isError) := by
  have h := (holds_progress env t time o s streams).errors
  simp only [keys_placed, recordedFor_placed] at h
  exact h

theorem warnings_progress : (progress env t time o s streams).files.totals.warnings
    = ∑ key ∈ ((recorded env t o s).map keptUnder).toFinset,
      ((((recorded env t o s).filter (keptUnder · = key)).take FileLog.limit).countP (·.isWarning)
        + if FileLog.limit < ((recorded env t o s).filter (keptUnder · = key)).length then 1
          else 0) := by
  have h := (holds_progress env t time o s streams).warnings
  simp only [keys_placed, recordedFor_placed] at h
  exact h

end

/-! ## A file with many warnings -/

/-- A run on unknown bytes and a comment without an end warns of each byte before it finds the
error. -/
theorem diagnostics_noise {path : String} {x : Indexer} {b : UInt8} {n : Nat}
    (hb : Cursor.unknown b = true) (hwarns : x.scanner.preferences.warnUnrecognized = true)
    (hx : x.sources = []) (hread : t.read path = .ok (List.replicate n b ++ [0x2f, 0x2a], none)) :
    ∃ (ws : List Event) (e : Event),
      (Indexer.run t path x).2.journal.diagnostics = x.journal.diagnostics ++ (ws ++ [e]) ∧
      ws.length = n ∧ (∀ e ∈ ws, e.isWarning = true ∧ e.file? = some path) ∧
      e.isError = true ∧ e.file? = some path := by
  let f := Source.ofBytes path (List.replicate n b ++ [0x2f, 0x2a]) none
  let z := x.add (.note (Indexer.startNote path))
  let y : Indexer := { z with scanner := z.scanner.suspend f }
  have hopen : z.openFile t path = (.ok (), y) := by
    have hdepth : ¬ maxDepth ≤ z.scanner.depth := by
      rw [Scanner.depth, show z.scanner.sources = [] from hx]
      decide
    simp only [Indexer.openFile, Scanner.openFile, if_neg hdepth, hread]
    rfl
  have hstart : y.journal.diagnostics = x.journal.diagnostics :=
    (Scanner.diagnostics_suspend z.scanner f).trans (Journal.diagnostics_note ..)
  obtain ⟨d, ws, hd, hs, hname, hfailure, hfaults, hlength, hws⟩ :=
    Cursor.token_unknowns (c := Scanner.freshCursor true f) hb n rfl rfl
      (Source.stands_ofBytes path _ none)
  obtain ⟨c, l, hc, hl, hlast⟩ := Cursor.token_unended hfailure hs
  rw [← hd] at hc
  -- the source ends in the first call for a token
  have hshows := Scanner.next_shows y.scanner
  have hsources : y.scanner.sources = [f] :=
    (Scanner.sources_suspend z.scanner f).trans (congrArg (f :: ·) hx)
  have hwanted : y.scanner.preferences.warnUnrecognized = true :=
    (congrArg _ (Scanner.preferences_suspend z.scanner f)).trans hwarns
  rw [hsources, hwanted, Scanner.outcome, hc] at hshows
  have hnext : y.nextToken = (.endOfInput, y.nextToken.2) := Prod.ext hshows.kind rfl
  have hdrive : Indexer.drive t .betweenDefinitions y = (.ok (), y.nextToken.2) :=
    Indexer.drive_of_stop hnext rfl
  have hrun : (Indexer.run t path x).2.journal.diagnostics
      = y.nextToken.2.journal.diagnostics := by
    rw [Indexer.run_of_openFile hopen, hdrive]
    exact Journal.diagnostics_note ..
  refine ⟨ws, Fault.unterminatedComment.event l, ?_, hlength, hws, rfl,
    (Fault.file?_event ..).trans (congrArg some (hl.trans hname))⟩
  have hfound : c.faults = ws ++ [Fault.unterminatedComment.event l] := by
    rw [hlast, hfaults]
    rfl
  rw [hrun, ← hstart, ← hfound]
  exact hshows.diagnostics

/-- A file of unknown bytes and a comment without an end. -/
def noisyTree (n : Nat) : FileTree := ⟨[], [(["a.g"], List.replicate n 0x60 ++ [0x2f, 0x2a])]⟩

/-- What is recorded if the file is given twice: the warnings and the error, and both again. -/
theorem recorded_noise (n : Nat) :
    let o : Options := { inputs := ["a.g", "a.g"] }
    let s := Settings.ofEnvironment []
    let journals := o.inputs.map (journalOf (noisyTree n) o s (Settings.searchPathOf [] s.imports))
    (journals.map (·.errors)).sum = 2 ∧ (journals.map (·.warnings)).sum = n + n ∧
      ∃ ws e, recorded [] (noisyTree n) o s = ws ++ ([e] ++ (ws ++ [e])) ∧ ws.length = n ∧
        (∀ d ∈ ws, d.isWarning = true) ∧
        ∀ d ∈ ws ++ ([e] ++ (ws ++ [e])), keptUnder d = Diagnostic.pathParts "a.g" := by
  intro o s journals
  have hread (bytes : List UInt8) :
      (⟨[], [(["a.g"], bytes)]⟩ : FileTree).read "a.g" = .ok (bytes, none) := rfl
  obtain ⟨ws, e, hdiagnostics, hlength, hws, herror, hfile⟩ :=
    diagnostics_noise (t := noisyTree n)
      (x := .new s.scan (Settings.searchPathOf [] s.imports) .empty) (by decide) rfl rfl (hread _)
  obtain ⟨j, hj, hjournal⟩ :
      ∃ j, journalOf (noisyTree n) o s (Settings.searchPathOf [] s.imports) "a.g" = j ∧
        j.diagnostics = ws ++ [e] := by
    refine ⟨_, rfl, Eq.trans ?_ hdiagnostics⟩
    unfold journalOf process
    rcases Indexer.run (noisyTree n) "a.g" _ with ⟨_ | _, _⟩ <;> rfl
  have hjournals : journals = [j, j] := by
    rw [← hj]
    rfl
  have hlast : e.isWarning = false := Event.isWarning_of_isError herror
  have herrors : j.errors = 1 := by
    rw [Journal.errors, hjournal, List.countP_append,
      List.countP_eq_zero.2 fun d hd => by simp [(hws d hd).1]]
    simp [hlast]
  have hwarnings : j.warnings = n := by
    rw [Journal.warnings, hjournal, List.countP_append,
      List.countP_eq_length.2 fun d hd => (hws d hd).1, hlength]
    simp [hlast]
  rw [recorded, show o.inputs.map _ = journals from rfl, hjournals]
  refine ⟨by simp [herrors], by simp [hwarnings], ws, e, by simp [hjournal], hlength,
    fun d hd => (hws d hd).1, fun d hd => ?_⟩
  have hfiles : ∀ d ∈ ws ++ ([e] ++ (ws ++ [e])), d.file? = some "a.g" := by
    simp only [List.forall_mem_append, List.forall_mem_singleton]
    exact ⟨fun d hd => (hws d hd).2, hfile, fun d hd => (hws d hd).2, hfile⟩
  rw [keptUnder, placed, hfiles d hd]
  rfl

/-! ## The totals -/

/-- **Behind a row of warnings that fills a file nothing is counted,** but that there is more. -/
theorem totals_behind_limit (env : Environment) (t : FileTree) (time : String) (o : Options)
    (s : Settings) (streams : Streams) {key : List PathPart} {ws later : List Event}
    (hrecorded : recorded env t o s = ws ++ later) (hlater : later ≠ [])
    (hlength : ws.length = FileLog.limit) (hws : ∀ e ∈ ws, e.isWarning = true)
    (hkey : ∀ e ∈ ws ++ later, keptUnder e = key) :
    (progress env t time o s streams).files.totals.errors = 0 ∧
      (progress env t time o s streams).files.totals.warnings = FileLog.limit + 1 := by
  have hkeys : ((ws ++ later).map keptUnder).toFinset = {key} := by
    rw [List.map_congr_left hkey, List.map_const', List.toFinset_replicate_of_ne_zero]
    simp [hlater]
  have hall : (ws ++ later).filter (keptUnder · = key) = ws ++ later :=
    List.filter_eq_self.2 fun e he => decide_eq_true (hkey e he)
  have hmore : FileLog.limit < (ws ++ later).length := by
    rw [List.length_append, hlength]
    exact Nat.lt_add_of_pos_right (List.length_pos_iff.2 hlater)
  rw [errors_progress, warnings_progress, hrecorded, hkeys, Finset.sum_singleton,
    Finset.sum_singleton, hall, List.take_left' hlength, if_pos hmore, List.countP_eq_length.2 hws,
    hlength]
  exact ⟨List.countP_eq_zero.2 fun e he => by simp [Event.isError_of_isWarning (hws e he)], rfl⟩

/-- **The totals are those of the first diagnostics of each path.** Over all inputs, they count the
errors and the warnings among the first diagnostics recorded for each path, and one warning for each
path that has more. So, if no path has more than are kept, they are the sums of what the runs count,
and if a run counts an error they are not zero. A number of errors that is not zero is printed, if
there are several inputs, and does not read as zero. -/
theorem totals_agree (env : Environment) (t : FileTree) (time : String) (o : Options)
    (s : Settings) (streams : Streams) :
    let p := progress env t time o s streams
    let totals := p.files.totals
    let journals := o.inputs.map (journalOf t o s (Settings.searchPathOf env s.imports))
    let events := journals.flatMap (·.diagnostics)
    let under (key : List PathPart) := events.filter (keptUnder · = key)
    totals.errors = ∑ key ∈ (events.map keptUnder).toFinset,
        ((under key).take FileLog.limit).countP (·.isError) ∧
      totals.warnings = ∑ key ∈ (events.map keptUnder).toFinset,
        (((under key).take FileLog.limit).countP (·.isWarning)
          + if FileLog.limit < (under key).length then 1 else 0) ∧
      ((∀ key, (under key).length ≤ FileLog.limit) →
        totals.errors = (journals.map (·.errors)).sum ∧
          totals.warnings = (journals.map (·.warnings)).sum ∧
          ((∃ j ∈ journals, 0 < j.errors) → 0 < totals.errors)) ∧
      (0 < totals.errors → 1 < o.inputs.length →
        (toString totals.errors).toList.head? ≠ some '0' ∧
          ∃ rest, (processAll env t time o s streams).streams.out = p.streams.out
            ++ ("total: errors: " ++ toString totals.errors ++ " warnings: "
              ++ toString totals.warnings ++ rest)) := by
  intro p totals journals events under
  have herrors := errors_progress env t time o s streams
  have hwarnings := warnings_progress env t time o s streams
  refine ⟨herrors, hwarnings, fun hfew => ?_,
    fun hpos hinputs => ⟨Text.head?_toString hpos, out_conclude hinputs (.inl hpos)⟩⟩
  have hsum (P : Event → Bool) : ∑ key ∈ (events.map keptUnder).toFinset,
      ((under key).take FileLog.limit).countP P = (journals.map (·.diagnostics.countP P)).sum := by
    simp only [fun key => List.take_of_length_le (hfew key)]
    rw [FileLog.sum_countP_filter, List.countP_flatMap]
    rfl
  have hall : totals.errors = (journals.map (·.errors)).sum := by
    refine herrors.trans ((hsum _).trans (congrArg List.sum (List.map_congr_left fun j hj => ?_)))
    obtain ⟨input, -, rfl⟩ := List.mem_map.1 hj
    exact (Journal.errors_eq fun e he => counted_of_mem he).symm
  refine ⟨hall, hwarnings.trans ?_, fun ⟨j, hj, hpos⟩ => ?_⟩
  · refine Eq.trans (Finset.sum_congr rfl fun key _ => ?_) (hsum _)
    exact (congrArg (_ + ·) (if_neg (Nat.not_lt.2 (hfew key)))).trans (Nat.add_zero _)
  · rw [hall]
    exact List.sum_pos_iff_exists_pos_nat.2 ⟨_, List.mem_map_of_mem hj, hpos⟩

/-- A file with one error is given twice, and both are printed. -/
theorem totals_agree_twice :
    let t := noisyTree 0
    let o : Options := { inputs := ["a.g", "a.g"] }
    let s := Settings.ofEnvironment []
    let p := progress [] t "" o s {}
    let journals := o.inputs.map (journalOf t o s (Settings.searchPathOf [] s.imports))
    let events := journals.flatMap (·.diagnostics)
    (∀ key, (events.filter (keptUnder · = key)).length ≤ FileLog.limit) ∧
      (∃ j ∈ journals, 0 < j.errors) ∧ p.files.totals.errors = 2 ∧
      ∃ rest, (processAll [] t "" o s {}).streams.out = p.streams.out
        ++ ("total: errors: 2 warnings: 0" ++ rest) := by
  intro t o s p journals events
  obtain ⟨hsum, hsum', ws, e, hrecorded, hlength, -, -⟩ := recorded_noise 0
  have hfew (key : List PathPart) : (events.filter (keptUnder · = key)).length ≤ FileLog.limit := by
    refine (List.length_filter_le ..).trans ?_
    rw [show events = _ from hrecorded, List.eq_nil_of_length_eq_zero hlength]
    simp [FileLog.limit]
  have hsome : ∃ j ∈ journals, 0 < j.errors := by
    obtain ⟨_, hin, hpos⟩ := List.sum_pos_iff_exists_pos_nat.1 (hsum ▸ Nat.zero_lt_two)
    obtain ⟨j, hj, rfl⟩ := List.mem_map.1 hin
    exact ⟨j, hj, hpos⟩
  obtain ⟨-, -, hall, hprinted⟩ := totals_agree [] t "" o s {}
  obtain ⟨herrors, hwarnings, hpos⟩ := hall hfew
  obtain ⟨-, hout⟩ := hprinted (hpos hsome) (by decide)
  rw [herrors.trans hsum, hwarnings.trans hsum'] at hout
  exact ⟨hfew, hsome, herrors.trans hsum, hout⟩

/-- **An error behind the limit is counted by its run, but not in total.** A file has a thousand
unknown bytes and then a comment without an end. -/
theorem errors_behind_limit :
    let t := noisyTree 1000
    let o : Options := { inputs := ["a.g", "a.g"] }
    let s := Settings.ofEnvironment []
    let p := progress [] t "" o s {}
    let journals := o.inputs.map (journalOf t o s (Settings.searchPathOf [] s.imports))
    (journals.map (·.errors)).sum = 2 ∧ (journals.map (·.warnings)).sum = 2000 ∧
      p.files.totals.errors = 0 ∧ p.files.totals.warnings = 1001 ∧
      ∃ rest, (processAll [] t "" o s {}).streams.out
        = p.streams.out ++ ("total: errors: 0 warnings: 1001" ++ rest) := by
  intro t o s p journals
  obtain ⟨hsum, hsum', ws, e, hrecorded, hlength, hws, hkey⟩ := recorded_noise 1000
  obtain ⟨herrors, hwarnings⟩ :=
    totals_behind_limit [] t "" o s {} hrecorded (by simp) hlength hws hkey
  have hprinted := out_conclude (o := o) (s := s) (p := p) (by decide)
    (.inr (by rw [hwarnings]; decide))
  rw [herrors, hwarnings] at hprinted
  exact ⟨hsum, hsum', herrors, hwarnings, hprinted⟩

end CommandLine
end ClassIndex
