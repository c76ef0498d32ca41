/-
# What a token does

Two tokens do more than lead from place to place. The name behind `class` is declared: its key is
among those of the index afterwards, and if it was there before, an error is recorded
(`declareClass_spec`). The string behind `import` opens a source: it lies on the others then, and
holds what a new scanner reads from its file (`openImport_of_scans`, `scans_of_openImport`).
-/

import ClassIndex.Indexer.Run
import ClassIndex.Proofs.Indexer.Program
import ClassIndex.Proofs.SearchPath
import ClassIndex.Proofs.SymbolTable.Register

namespace ClassIndex

open Diagnostic (Event Journal)
open Token (Scanned)

namespace Diagnostic.Journal

variable {j j' : Journal} {events : List Event}

theorem errors_of_diagnostics (h : j'.diagnostics = j.diagnostics ++ events) :
    j'.errors = j.errors + events.countP (! ·.isWarning) := by
  rw [errors, errors, h, List.countP_append]

theorem warnings_of_diagnostics (h : j'.diagnostics = j.diagnostics ++ events) :
    j'.warnings = j.warnings + events.countP (·.isWarning) := by
  rw [warnings, warnings, h, List.countP_append]

theorem diagnostics_warning (j : Journal) (code : String) (l : Location) (message : String) :
    ∃ e : Event, (j.warning code l message).diagnostics = j.diagnostics ++ [e] ∧
      e.isWarning = true :=
  ⟨_, diagnostics_add .., rfl⟩

end Diagnostic.Journal

namespace FileTree

variable {t : FileTree} {p : ScanPreferences} {path : String} {us us' : List Scanned}
  {events events' : List Event}

/-- What is scanned from a file is what its bytes hold. -/
theorem scans_iff : t.Scans p path us events ↔ ∃ bytes failure?,
    t.read path = .ok (bytes, failure?) ∧
      (Source.ofBytes path bytes failure?).Holds p.warnUnrecognized us events := by
  have hroom : ¬ maxDepth ≤ (Scanner.new p .empty).depth := Nat.not_succ_le_zero 14
  have hscan (f : Source) (us : List Scanned) (events : List Event)
      (hf : f.Holds p.warnUnrecognized us events) :
      ((Scanner.new p .empty).suspend f).scan.1 = us ∧
        ((Scanner.new p .empty).suspend f).scan.2.journal.diagnostics = events := by
    have h := Scanner.scan_of_holds (s := (Scanner.new p .empty).suspend f)
      (by rw [Scanner.preferences_suspend]; exact hf) (Scanner.sources_suspend _ _)
    rwa [Scanner.diagnostics_suspend] at h
  unfold Scans Scanner.openFile
  rw [if_neg hroom]
  constructor
  · rintro ⟨s, hopen, rfl, rfl⟩
    split at hopen
    · rename_i bytes failure? hread
      cases hopen
      obtain ⟨us, events, hf⟩ :=
        Source.exists_holds p.warnUnrecognized (.ofBytes path bytes failure?)
      obtain ⟨hus, hevents⟩ := hscan _ us events hf
      exact ⟨bytes, failure?, hread, by rwa [hus, hevents]⟩
    · cases hopen
  · rintro ⟨bytes, failure?, hread, hf⟩
    rw [hread]
    exact ⟨_, rfl, hscan _ us events hf⟩

/-- A file is scanned in one way. -/
theorem Scans.unique (h : t.Scans p path us events) (h' : t.Scans p path us' events') :
    us = us' ∧ events = events' := by
  obtain ⟨bytes, failure?, hread, hf⟩ := scans_iff.1 h
  obtain ⟨_, _, hread', hf'⟩ := scans_iff.1 h'
  cases hread.symm.trans hread'
  exact hf.unique hf'

end FileTree

namespace Indexer

variable {t : FileTree} {p : ScanPreferences} {name path : String} {us : List Scanned}
  {events : List Event} {x y : Indexer} {r : Register}

/-! ## Opening -/

/-- A file that can be scanned can be opened wherever there is room. -/
theorem openFile_of_scans (h : t.Scans p path us events) (hroom : x.sources.length < maxDepth) :
    ∃ f, x.openFile t path = (.ok (), { x with scanner := x.scanner.suspend f }) ∧
      f.Holds p.warnUnrecognized us events := by
  obtain ⟨bytes, failure?, hread, hf⟩ := FileTree.scans_iff.1 h
  refine ⟨_, ?_, hf⟩
  have hdepth : ¬ maxDepth ≤ x.scanner.depth := Nat.not_le_of_lt hroom
  simp only [openFile, Scanner.openFile, if_neg hdepth, hread]

/-- A file that was opened can be scanned. -/
theorem scans_of_openFile (h : x.openFile t path = (.ok (), y)) (p : ScanPreferences) :
    ∃ us events f, t.Scans p path us events ∧ f.Holds p.warnUnrecognized us events ∧
      y = { x with scanner := x.scanner.suspend f } := by
  unfold openFile Scanner.openFile at h
  split at h
  · rename_i heq
    cases h
    split at heq
    · cases heq
    · split at heq
      · rename_i bytes failure? hread
        cases heq
        obtain ⟨us, events, hf⟩ :=
          Source.exists_holds p.warnUnrecognized (.ofBytes path bytes failure?)
        exact ⟨us, events, _, FileTree.scans_iff.2 ⟨bytes, failure?, hread, hf⟩, hf, rfl⟩
      · cases heq
  · cases h

/-- The name of an import has the extension. -/
def hasExtension (name : String) : Bool := SearchPath.extension.toList.isSuffixOf name.toList

/-- An import that was found is named with its extension or without. -/
theorem redundant_of_resolve {w : SearchPath} {t : FileTree} {name : String} {found : FoundImport}
    (h : w.resolve t name = .ok found) : found.redundant = hasExtension name := by
  have hfile : (SearchPath.fileName name).2 = hasExtension name := by
    unfold SearchPath.fileName hasExtension
    split
    · rename_i hx; exact hx.symm
    · rename_i hx; exact (Bool.eq_false_iff.2 hx).symm
  rw [(SearchPath.find?_of_find h).2, hfile]

/-- A found import adds one warning to the diagnostics if it is named with its extension. -/
theorem diagnostics_sayFound (x : Indexer) (name : String) (found : FoundImport) :
    ∃ events : List Event, (x.sayFound name found).journal.diagnostics
        = x.journal.diagnostics ++ events ∧
      events.countP (! ·.isWarning) = 0 ∧
      events.countP (·.isWarning) = if found.redundant then 1 else 0 := by
  have hnote := Journal.diagnostics_note x.journal (foundNote name found.path)
  unfold sayFound
  dsimp only
  split
  · obtain ⟨e, he, hwarning⟩ := Journal.diagnostics_warning
      (x.journal.note (foundNote name found.path)) redundantExtension x.scanner.tokenLocation
      "do not include the file extension for import names"
    exact ⟨[e], by rw [← hnote]; exact he, by simp [hwarning], by simp [hwarning]⟩
  · exact ⟨[], by rw [List.append_nil]; exact hnote, rfl, rfl⟩

/-- The index after a found import was opened. -/
def imported (x : Indexer) (name : String) (found : FoundImport) (f : Source) : Indexer :=
  { x.sayFound name found with scanner := (x.sayFound name found).scanner.suspend f }

theorem openImport_of_scans {found : FoundImport} (hfound : x.searchPath.resolve t name = .ok found)
    (h : t.Scans p found.path us events) (hroom : x.sources.length < maxDepth) :
    ∃ f, x.openImport t name = (.ok (), x.imported name found f) ∧
      f.Holds p.warnUnrecognized us events := by
  obtain ⟨f, hopen, hf⟩ := openFile_of_scans (x := x.sayFound name found) h hroom
  refine ⟨f, ?_, hf⟩
  rw [openImport, hfound]
  exact hopen

theorem scans_of_openImport (h : x.openImport t name = (.ok (), y)) (p : ScanPreferences) :
    ∃ found us events f, x.searchPath.resolve t name = .ok found ∧
      t.Scans p found.path us events ∧ f.Holds p.warnUnrecognized us events ∧
      y = x.imported name found f := by
  unfold openImport at h
  split at h
  · cases h
  · rename_i found hfound
    obtain ⟨us, events, f, hscans, hf, hy⟩ := scans_of_openFile h p
    exact ⟨found, us, events, f, hfound, hscans, hf, hy⟩

@[simp] theorem sources_imported (x : Indexer) (name : String) (found : FoundImport)
    (f : Source) : (x.imported name found f).sources = f :: x.sources :=
  Scanner.sources_suspend _ _

@[simp] theorem preferences_imported (x : Indexer) (name : String) (found : FoundImport)
    (f : Source) : (x.imported name found f).scanner.preferences = x.scanner.preferences :=
  Scanner.preferences_suspend _ _

/-- Whether or not an import is found and opened, no symbol changes. -/
theorem openImport_symbols (x : Indexer) (t : FileTree) (name : String) :
    (x.openImport t name).2.symbols = x.symbols ∧
      (x.openImport t name).2.searchPath = x.searchPath ∧
      (x.openImport t name).2.scanner.preferences = x.scanner.preferences := by
  have hfile (x : Indexer) (path : String) : (x.openFile t path).2.symbols = x.symbols ∧
      (x.openFile t path).2.searchPath = x.searchPath ∧
      (x.openFile t path).2.scanner.preferences = x.scanner.preferences := by
    have hscanner : (x.scanner.openFile t path).2.preferences = x.scanner.preferences := by
      unfold Scanner.openFile
      split
      · rfl
      · split
        · exact Scanner.preferences_suspend _ _
        · rfl
    unfold openFile
    split <;> (rename_i heq; rw [heq] at hscanner; exact ⟨rfl, rfl, hscanner⟩)
  unfold openImport
  split
  · exact ⟨rfl, rfl, rfl⟩
  · rename_i found _
    exact hfile (x.sayFound name found) found.path

/-! ## Declaring -/

/-- The key of a class. -/
def classKey (name : String) : String := "$" ++ name

theorem classKey_injective : Function.Injective classKey := by
  intro a b h
  have htext : a.toList = b.toList := by simpa [classKey] using congrArg String.toList h
  exact String.toList_injective htext

/-- Declaring a class records what the register answers under the key of the class. -/
theorem declareClass_answers (hr : x.symbols.Keeps r) (name : String) :
    ∃ a r' events,
      Register.Answers { r with key := classKey name } (.declare .newClass) a events r' ∧
      (x.declareClass name).2.journal.diagnostics = x.journal.diagnostics ++ events := by
  have hnamed : (x.symbols.beginDecoration.addName name).Keeps { r with key := classKey name } :=
    hr.beginDecoration.addComponent (by decide) (by decide)
  obtain ⟨r', events, ha, -, hd⟩ := hnamed.declare x.journal .newClass
  refine ⟨_, r', events, ha, ?_⟩
  simp only [SymbolTable.answer] at hd
  unfold declareClass
  generalize (x.symbols.beginDecoration.addName name).declare x.journal .newClass = step at hd ⊢
  exact hd

/-- **Declaring a class adds its key,** or records an error because the key is there. -/
theorem declareClass_spec (hr : x.symbols.Keeps r) (name : String) :
    ∃ result y r' events, x.declareClass name = (result, y) ∧
      y.scanner = { x.scanner with journal := y.journal } ∧ y.searchPath = x.searchPath ∧
      y.symbols.Keeps r' ∧ r'.symbols.keys = insert (classKey name) r.symbols.keys ∧
      y.journal.diagnostics = x.journal.diagnostics ++ events ∧
      ((result = .ok () ∧ events = [] ∧ classKey name ∉ r.symbols.keys) ∨
        ∃ taken e, result = .error (.alreadyExists taken) ∧ events = [e] ∧
          e.isWarning = false ∧ classKey name ∈ r.symbols.keys) := by
  have hnamed : (x.symbols.beginDecoration.addName name).Keeps { r with key := classKey name } :=
    hr.beginDecoration.addComponent (by decide) (by decide)
  obtain ⟨r', events, ha, hr', hd⟩ := hnamed.declare x.journal .newClass
  unfold declareClass
  simp only [SymbolTable.answer] at ha hr' hd
  generalize (x.symbols.beginDecoration.addName name).declare x.journal .newClass = step
    at ha hr' hd ⊢
  obtain ⟨result, symbols, j⟩ := step
  simp only [Prod.map, id] at ha hr' hd
  cases ha with
  | declareMismatch hfits => exact absurd (by simp [Symbol.Fits, Symbol.newClass, Symbol.new]) hfits
  | declarePresent _ hin he hevent =>
    have hkey : classKey name ∈ r.symbols.keys := Finmap.mem_keys.2 hin
    exact ⟨_, _, _, _, rfl, rfl, rfl, hr', (Finset.insert_eq_of_mem hkey).symm, hd,
      .inr ⟨_, _, congrArg _ he, rfl, by rw [hevent.eq_event, he]; rfl, hkey⟩⟩
  | declare _ hout =>
    refine ⟨_, _, _, _, rfl, rfl, rfl, hr', ?_, hd,
      .inl ⟨rfl, rfl, fun hin => hout (Finmap.mem_keys.1 hin)⟩⟩
    ext key
    simp [Register.put, Finmap.mem_keys, Finmap.mem_insert]

end Indexer
end ClassIndex
