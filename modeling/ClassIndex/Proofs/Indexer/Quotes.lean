/-
# The lines of a run stay lines

What a source holds gets into the lines of diagnostics escaped, as a number or in printed
characters, but for one text: the name of an import that is not found. So where paths and
directories lack a character that is not printed, a line has it just if it quotes such a name, or
the path of a call that cannot be opened (`line_quotes`).

| step | what its diagnostics are told in |
| --- | --- |
| a token is read, a token is misplaced | printed words |
| a file is opened | the path, if that is not led to by the tree |
| an import is followed | the name, if no file is found; a found path is one of the tree |
| a class is declared | its name, which is printed |

The name of an import is what its string denotes, and an escape may denote a line feed. Such an
import, if it is not found, writes a line of its own making (`import_forges_line`).
-/

import ClassIndex.Proofs.Diagnostic.Quotes
import ClassIndex.Proofs.Indexer.Inlining
import ClassIndex.Proofs.Indexer.Lines
import ClassIndex.Proofs.Indexer.Reuse
import ClassIndex.Proofs.Scanner.Worded

namespace ClassIndex

open Diagnostic (Event Journal)
open Text (Printed)

namespace Indexer

/-- The names of the open sources lack a character, and what fails fails in printed words. -/
structure Clear (c : Char) (p : ScanPreferences) (w : SearchPath) (x : Indexer) : Prop where
  known : Known p w x
  legible : Scanner.Legible (fun name => c ∉ name.toList) x.sources

/-- An index goes on to a clear one, and all that is recorded on the way has the character only
where it quotes it. -/
structure Plainly (c : Char) (p : ScanPreferences) (w : SearchPath) (path : String)
    (x y : Indexer) : Prop where
  adds : x.journal.Adds (Event.Told c w path) y.journal
  clear : Clear c p w y

variable {c : Char} {p : ScanPreferences} {w : SearchPath} {t : FileTree} {path : String}
  {x y z : Indexer}

namespace Clear

theorem congr (h : Clear c p w x) (hknown : Known p w y) (hsources : y.sources = x.sources) :
    Clear c p w y :=
  ⟨hknown, hsources ▸ h.legible⟩

/-- No place that an index may be at has the character in the name of its file. -/
theorem not_mem_file (h : Clear c p w x) (hc : Text.isPrinted c = false) :
    c ∉ x.scanner.location.file.toList ∧ c ∉ x.scanner.tokenLocation.file.toList := by
  have hnone : c ∉ Scanner.noSource.toList := Printed.not_mem (by decide) hc
  have hname : c ∉ x.scanner.sourceName.toList :=
    Scanner.sourceName_of_legible (P := fun name => c ∉ name.toList) h.legible hnone
  exact ⟨x.scanner.file_location ▸ hname, hname⟩

end Clear

namespace Plainly

theorem trans (h : Plainly c p w path x y) (h' : Plainly c p w path y z) : Plainly c p w path x z :=
  ⟨h.adds.trans h'.adds, h'.clear⟩

/-- What leaves the diagnostics and the sources alone. -/
theorem of_eq (h : Clear c p w x) (hknown : Known p w y) (hsources : y.sources = x.sources)
    (hdiagnostics : y.journal.diagnostics = x.journal.diagnostics) : Plainly c p w path x y :=
  ⟨Journal.adds_of_eq hdiagnostics, h.congr hknown hsources⟩

theorem of_plain (h : Plainly c p w path x y) (hpath : c ∉ path.toList) (path' : String) :
    Plainly c p w path' x y :=
  ⟨h.adds.mono fun _ he => he.of_plain hpath path', h.clear⟩

end Plainly

/-! ## One step -/

section steps

variable (hc : Text.isPrinted c = false) (h : Clear c p w x)
include hc h

theorem nextToken_plainly : Plainly c p w path x x.nextToken.2 := by
  obtain ⟨hadds, hlegible⟩ := Scanner.next_worded h.legible
  exact ⟨hadds.mono fun e ⟨file, hfile, he⟩ => he.told hc hfile, h.known.nextToken, hlegible⟩

/-- A token that does not belong where it stands is told of in the names of kinds. -/
theorem report_plainly {f : Fault} (hf : f.code = "E030")
    (hy : y = x.report f ∨ y = x.reportToken f) : Plainly c p w path x y := by
  have hmessage := Fault.printed_misplaced hf
  obtain ⟨hlocation, htoken⟩ := h.not_mem_file hc
  have hadds (l : Location) (hl : c ∉ l.file.toList) :
      x.journal.Adds (Event.Told c w path) (x.journal.addDiagnostics [f.event l]) :=
    ⟨_, Journal.diagnostics_addDiagnostics .., List.forall_mem_singleton.2
      (Event.WordedIn.told ⟨f, l, rfl, hmessage, rfl⟩ hc hl)⟩
  rcases hy with rfl | rfl
  · exact ⟨hadds _ hlocation, h.congr (h.known.congr rfl rfl rfl) rfl⟩
  · exact ⟨hadds _ htoken, h.congr (h.known.congr rfl rfl rfl) rfl⟩

/-- A file that is not opened is told of by its path. -/
theorem openFile_plainly (ht : t.Lacks c) (path : String) :
    Plainly c p w path x (x.openFile t path).2 := by
  have hknown := openFile_known h.known t path
  have hnone {l : Location} (hl : l ∈ (none : Option Location)) : c ∉ l.file.toList := by cases hl
  unfold openFile Scanner.openFile at hknown ⊢
  split_ifs at hknown ⊢
  · exact ⟨x.journal.adds_printed .error _ hc (fun _ => hnone) (OpenError.printed_nestingTooDeep _),
      h.congr hknown rfl⟩
  · rcases hread : t.read path with cause | ⟨bytes, failure?⟩
    all_goals
      rw [hread] at hknown
    · refine ⟨x.journal.adds_told .error (fun _ => hnone) fun hmem e hcode hmessage => ?_,
        h.congr hknown rfl⟩
      exact .notOpened (OpenError.mem_path hc hmem) hcode hmessage
    · refine ⟨Journal.adds_of_eq (Scanner.diagnostics_suspend ..), hknown, ?_⟩
      show Scanner.Legible _ (x.scanner.suspend _).sources
      rw [Scanner.sources_suspend]
      exact List.forall_mem_cons.2
        ⟨⟨ht.not_mem_of_read hc hread, Source.failsPrinted_of_read hread⟩, h.legible⟩

/-- An import that is not found is told of by its name, and one that is found has a path of names
in the tree. -/
theorem openImport_plainly (ht : t.Lacks c) (hdirs : ∀ dir ∈ w.directories, c ∉ dir.toList)
    (name : String) : Plainly c p w path x (x.openImport t name).2 := by
  obtain ⟨-, htoken⟩ := h.not_mem_file hc
  have hplace : ∀ l ∈ some x.scanner.tokenLocation, c ∉ l.file.toList := by
    rintro l ⟨⟩
    exact htoken
  have hknown := h.known.openImport t name
  have hpath : x.searchPath = w := h.known.elim fun _ hk => hk.searchPath
  unfold openImport at hknown ⊢
  rw [hpath] at hknown ⊢
  rcases hresolve : w.resolve t name with e | found
  all_goals rw [hresolve] at hknown
  · refine ⟨?_, h.congr hknown rfl⟩
    rcases SearchPath.error_of_find hresolve with rfl | rfl
    · have hmessage : Printed (ImportError.invalidName (Text.escape name)).message := by
        unfold ImportError.message
        exact ((by decide : Printed _).append (Text.printed_escape name)).append (by decide)
      exact x.journal.adds_printed .error _ hc hplace hmessage
    · exact x.journal.adds_told .error hplace fun hmem e hcode hmessage =>
        .notFound (ImportError.mem_name hc hdirs hmem) hcode hmessage
  · have hfound : Plainly c p w path x (x.sayFound name found) := by
      refine ⟨adds_sayFound (fun j => ?_) name found, h.congr (h.known.congr rfl rfl rfl) rfl⟩
      exact j.adds_printed .warning _ hc hplace (by decide)
    obtain ⟨bytes, hread⟩ := read_of_resolve hresolve
    exact hfound.trans ((openFile_plainly hc hfound.clear ht found.path).of_plain
      (ht.not_mem_of_read hc hread) path)

/-- A class that is declared twice is told of by its name. -/
theorem declareClass_plainly (hname : Printed x.scanner.lexemeText) :
    Plainly c p w path x (x.declareClass x.scanner.lexemeText).2 := by
  refine ⟨?_, h.congr (h.known.declareClass _) (sources_declareClass ..)⟩
  obtain ⟨keys, hknows⟩ := h.known
  obtain ⟨r, hr, -⟩ := hknows.symbols
  obtain ⟨a, r', events, ha, hd⟩ := declareClass_answers hr x.scanner.lexemeText
  refine ⟨events, hd, ?_⟩
  have hkey : Printed (Decoration.readable (classKey x.scanner.lexemeText)) :=
    Decoration.printed_readable ((by decide : Printed "$").append hname)
  cases ha with
  | declareMismatch hfits => exact absurd (by simp [Symbol.Fits, Symbol.newClass, Symbol.new]) hfits
  | declare => exact List.forall_mem_nil _
  | declarePresent _ _ he hevent =>
    rw [hevent.eq_event, he]
    have hmessage := (by decide : Printed "name already exists: ").append hkey
    refine List.forall_mem_singleton.2
      ⟨.inl rfl, fun file hfile => ?_, fun hmem => absurd hmem (hmessage.not_mem hc)⟩
    cases hfile

end steps

/-! ## Whole calls -/

/-- The names in the tree that a call reads lack a character. -/
def Call.Lacks (c : Char) : Call → Prop
  | .run t _ | .dump t _ _ => t.Lacks c
  | .write _ => True

section calls

variable (hc : Text.isPrinted c = false) (hdirs : ∀ dir ∈ w.directories, c ∉ dir.toList)
include hc hdirs

/-- A class is declared only under the text of an identifier, which is printed. -/
theorem plainly_rounds (ht : t.Lacks c) (path : String) (x : Indexer) :
    Rounds t (fun y => Printed y.scanner.lexemeText) (Plainly c p w path x) where
  nextToken hy := hy.trans (nextToken_plainly hc hy.clear)
  misplaced hf hz hy := hy.trans (report_plainly hc hy.clear hf hz)
  openImport name hy := hy.trans (openImport_plainly hc hy.clear ht hdirs name)
  declareClass hname hy := hy.trans (declareClass_plainly hc hy.clear hname)
  writeLine _ _ hy := hy.trans
    (.of_eq hy.clear (hy.clear.known.congr rfl rfl rfl) rfl (diagnostics_writeLine rfl))
  note _ hy := hy.trans
    (.of_eq hy.clear (hy.clear.known.congr rfl rfl rfl) rfl (Journal.diagnostics_note ..))

variable (h : Clear c p w x)
include h

theorem run_plainly (ht : t.Lacks c) (path : String) : Plainly c p w path x (run t path x).2 := by
  have hrounds := plainly_rounds (p := p) hc hdirs ht path x
  have hname (y : Indexer) (hkind : y.nextToken.1 = .identifier) :
      Printed y.nextToken.2.scanner.lexemeText := by
    change y.scanner.next.1 = .identifier at hkind
    exact y.scanner.printed_next (by rw [hkind]; rfl) (by rw [hkind]; decide)
  have hstart := hrounds.note (startNote path) (.of_eq h h.known rfl rfl)
  exact hrounds.run hname (hstart.trans (openFile_plainly hc hstart.clear ht path))

theorem dumpTokens_plainly (ht : t.Lacks c) (path : String) (sink : Sink) :
    Plainly c p w path x (dumpTokens t path sink x).2 :=
  (plainly_rounds hc hdirs ht path x).dumpTokens sink (openFile_plainly hc h ht path)

/-- No call leaves a source open whose name has the character. -/
theorem Clear.answer {call : Call} (hcall : call.Lacks c) : Clear c p w (x.answer call).2 := by
  cases call with
  | run t path => exact (run_plainly hc hdirs h hcall path).clear
  | dump t path sink => exact (dumpTokens_plainly hc hdirs h hcall path sink).clear
  | write sink =>
    exact h.congr (answer_tells h.known (.write sink)).2
      (sources_listSymbols sink x.symbols.names x)

theorem Clear.after {calls : List Call} (hcalls : ∀ call ∈ calls, call.Lacks c) :
    Clear c p w (x.after calls) := by
  induction calls generalizing x with
  | nil => exact h
  | cons call calls ih =>
    obtain ⟨hcall, hcalls⟩ := List.forall_mem_cons.1 hcalls
    exact ih (Clear.answer hc hdirs h hcall) hcalls

end calls

/-- **A line has no character of its own making.** Where the names in the trees and the directories
searched lack a character that is not printed, a line that a run or a listing records has it just if
the diagnostic quotes a text that has it: the name of an import that is not found, or the path of
the call, which cannot be opened. The bytes of the sources do not matter otherwise, and nor does
what the index was asked before. -/
theorem line_quotes {c : Char} (hc : Text.isPrinted c = false) (preferences : ScanPreferences)
    (searchPath : SearchPath) (journal : Journal) (earlier : List Call) (t : FileTree)
    (path : String) (sink : Sink) (hdirs : ∀ dir ∈ searchPath.directories, c ∉ dir.toList)
    (hearlier : ∀ call ∈ earlier, call.Lacks c) (ht : t.Lacks c) :
    let x := (new preferences searchPath journal).after earlier
    let Quoting (e : Event) : Prop := c ∈ e.line.toList ↔ e.Quotes c searchPath path
    x.journal.Adds Quoting (run t path x).2.journal ∧
      x.journal.Adds Quoting (dumpTokens t path sink x).2.journal := by
  intro x Quoting
  have hnew : Clear c preferences searchPath (new preferences searchPath journal) :=
    ⟨Known.new preferences searchPath journal, List.forall_mem_nil _⟩
  have hx : Clear c preferences searchPath x := Clear.after hc hdirs hnew hearlier
  exact ⟨(run_plainly hc hdirs hx ht path).adds.mono fun _ he => he.mem_line_iff hc,
    (dumpTokens_plainly hc hdirs hx ht path sink).adds.mono fun _ he => he.mem_line_iff hc⟩

/-- A tree with a source that imports a name of two lines. -/
def forging : FileTree := ⟨[["w"]], [(["main.g"], Text.utf8 "import \"a\\nb\"\n")]⟩

/-- The error of that import. -/
def forged : Event :=
  (⟨.error, "E005", (ImportError.notFound "a\nb" ["w/a\nb.g"]).message, none, []⟩ : Event).located
    ⟨"main.g", 1, 8⟩

theorem lacks_forging : forging.Lacks '\n' := by
  rintro name ⟨names, hmem, hname⟩
  obtain rfl | rfl : names = ["w"] ∨ names = ["main.g"] := by simpa [forging] using hmem
  all_goals
    obtain rfl := List.mem_singleton.1 hname
    decide

theorem diagnostics_forging :
    (run forging "main.g" (new default ⟨["w"], []⟩ .empty)).2.journal.diagnostics = [forged] ∧
      forged.line =
        "Syntax Error: main.g: 1: 8: cannot find import \"a\nb\" (searched: w/a\nb.g)" := by
  let x : Indexer := new default ⟨["w"], []⟩ .empty
  let start := ((x.add (.note (startNote "main.g"))).openFile forging "main.g").2
  have hopen : (x.add (.note (startNote "main.g"))).openFile forging "main.g" = (.ok (), start) :=
    rfl
  obtain ⟨hloop, hline⟩ :
      (loop (driveRound forging) 2 (.betweenDefinitions, start)).map
        (fun r => (r.1.toOption, r.2.journal.diagnostics)) = some (none, [forged]) ∧
      forged.line =
        "Syntax Error: main.g: 1: 8: cannot find import \"a\nb\" (searched: w/a\nb.g)" := by
    decide +kernel
  obtain ⟨⟨result, z⟩, hends, hr⟩ := Option.map_eq_some_iff.1 hloop
  have hdrive := eq_of_endsWithin (drive_eq forging) hends
  dsimp only at hdrive hr
  refine ⟨?_, hline⟩
  rw [run_of_openFile hopen, hdrive]
  cases result with
  | error e => exact congrArg Prod.snd hr
  | ok => cases hr

theorem mem_line_forged : '\n' ∈ forged.line.toList := by
  rw [diagnostics_forging.2]
  decide

/-- A run of a source whose import has two lines quotes them, and so a run after it is told on lines
that break just where they quote. -/
theorem line_quotes_forging :
    let w : SearchPath := ⟨["w"], []⟩
    let earlier := [Call.run forging "main.g"]
    Text.isPrinted '\n' = false ∧ (∀ dir ∈ w.directories, '\n' ∉ dir.toList) ∧
      (∀ call ∈ earlier, call.Lacks '\n') ∧ forging.Lacks '\n' ∧
      let x := (new default w .empty).after earlier
      (∃ e ∈ x.journal.diagnostics, e.Quotes '\n' w "main.g") ∧
        x.journal.Adds (fun e => '\n' ∈ e.line.toList ↔ e.Quotes '\n' w "main.g")
          (run forging "main.g" x).2.journal := by
  intro w earlier
  have hprinted : Text.isPrinted '\n' = false := rfl
  have hdirs : ∀ dir ∈ w.directories, '\n' ∉ dir.toList := List.forall_mem_singleton.2 (by decide)
  have hearlier : ∀ call ∈ earlier, call.Lacks '\n' := List.forall_mem_singleton.2 lacks_forging
  obtain ⟨⟨events, hevents, hquotes⟩, -⟩ := line_quotes hprinted default w .empty [] forging
    "main.g" .unlimited hdirs (List.forall_mem_nil _) lacks_forging
  obtain rfl : [forged] = events := diagnostics_forging.1.symm.trans hevents
  have hforged := (List.forall_mem_singleton.1 hquotes).1 mem_line_forged
  refine ⟨hprinted, hdirs, hearlier, lacks_forging, ⟨forged, ?_, hforged⟩, ?_⟩
  · show forged ∈ (run forging "main.g" (new default w .empty)).2.journal.diagnostics
    rw [diagnostics_forging.1]
    exact List.mem_singleton_self _
  · exact (line_quotes hprinted default w .empty earlier forging "main.g" .unlimited hdirs hearlier
      lacks_forging).1

/-- **An import may write a line of its own making.** No name in the tree and no directory has a
line feed, but the error of an import that is not found has one. -/
theorem import_forges_line :
    let w : SearchPath := ⟨["w"], []⟩
    forging.Lacks '\n' ∧ (∀ dir ∈ w.directories, '\n' ∉ dir.toList) ∧ '\n' ∉ "main.g".toList ∧
      ∃ e ∈ (run forging "main.g" (new default w .empty)).2.journal.diagnostics,
        e.line = "Syntax Error: main.g: 1: 8: cannot find import \"a\nb\" (searched: w/a\nb.g)" ∧
          '\n' ∈ e.line.toList := by
  refine ⟨lacks_forging, List.forall_mem_singleton.2 (by decide), by decide, forged, ?_,
    diagnostics_forging.2, mem_line_forged⟩
  rw [diagnostics_forging.1]
  exact List.mem_singleton_self _

end Indexer
end ClassIndex
