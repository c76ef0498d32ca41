/-
# What a run of a program declares

A run of a well-formed program finds the classes of its expansion, no more and no fewer
(`run_declares`). Its counts are these:

| count | of the expansion |
| --- | --- |
| errors | classes less different names of classes |
| warnings | imports whose name has the extension |
| symbols | different names of classes |
| sources | imports and one |
| tokens | tokens |
-/

import ClassIndex.Proofs.Indexer.Effect
import ClassIndex.Proofs.Indexer.Place

namespace ClassIndex

open Diagnostic (Event Journal)
open Token (Scanned Rest)
open Item (tokensOf classNames importNames)

namespace Indexer

/-- What a run has come to after these classes, imports and so many tokens. -/
structure Indexed (p : ScanPreferences) (w : SearchPath) (classes imports : List String)
    (tokens : Nat) (x : Indexer) : Prop where
  preferences : x.scanner.preferences = p
  searchPath : x.searchPath = w
  tokens : x.scanner.metrics.tokens = tokens
  sources : x.scanner.metrics.sources = 1 + imports.length
  warnings : x.journal.warnings = imports.countP hasExtension
  symbols : ∃ r, x.symbols.Keeps r ∧ r.symbols.keys = classes.toFinset.image classKey
  errors : x.journal.errors + classes.toFinset.card = classes.length

variable {t : FileTree} {p : ScanPreferences} {w : SearchPath} {classes imports : List String}
  {tokens : Nat} {x y z : Indexer} {u : Scanned} {us vs : List Scanned} {outer : List Source}
  {place place' : Place} {name : String}

namespace Indexed

/-- A token is read without a fault. -/
theorem nextToken (h : Indexed p w classes imports tokens x)
    (hu : x.scanner.Comes (u :: us) outer []) :
    ∃ z f, x.nextToken = (u.kind, z) ∧ z.scanner.lexemeText = u.text ∧
      z.sources = f :: outer ∧ f.Holds p.warnUnrecognized us [] ∧
      Indexed p w classes imports (tokens + 1) z := by
  obtain ⟨f, now, later, hk, htext, -, hd, hs, hf, hevents⟩ := Scanner.next_of_comes hu
  obtain ⟨rfl, rfl⟩ := List.append_eq_nil_iff.1 hevents.symm
  have hm : x.nextToken.2.scanner.metrics = x.scanner.metrics.countToken u.kind :=
    hk ▸ Scanner.metrics_next x.scanner
  refine ⟨x.nextToken.2, f, Prod.ext hk rfl, htext, hs, h.preferences ▸ hf, ?_⟩
  exact {
    preferences := (Scanner.preferences_next _).trans h.preferences
    searchPath := h.searchPath
    tokens := by
      rw [hm, Scanner.tokens_countToken _ (hu.kind_ne u List.mem_cons_self), h.tokens]
    sources := by rw [hm, Scanner.sources_countToken, h.sources]
    warnings := (Journal.warnings_of_diagnostics hd).trans h.warnings
    symbols := h.symbols
    errors := h.errors ▸ congrArg (· + _) (Journal.errors_of_diagnostics hd) }

/-- A class is declared, or its name is taken; that is the one fault that a program may have. -/
theorem declareClass (h : Indexed p w classes imports tokens x) (name : String) :
    ∃ result y, x.declareClass name = (result, y) ∧ y.sources = x.sources ∧
      Indexed p w (classes ++ [name]) imports tokens y ∧
      (result = .ok () ∨ ∃ taken, result = .error (.alreadyExists taken)) := by
  obtain ⟨r, hr, hkeys⟩ := h.symbols
  obtain ⟨result, y, r', events, hy, hscanner, hpath, hr', hkeys', hd, hresult⟩ :=
    declareClass_spec hr name
  have hmem : classKey name ∈ r.symbols.keys ↔ name ∈ classes.toFinset := by
    rw [hkeys, classKey_injective.mem_finset_image]
  have hset : (classes ++ [name]).toFinset = insert name classes.toFinset := by
    ext; simp
  -- an error is counted for just those classes that add no name
  have hcounts : y.journal.warnings = x.journal.warnings ∧
      y.journal.errors + (insert name classes.toFinset).card
        = x.journal.errors + classes.toFinset.card + 1 := by
    have hwarnings := Journal.warnings_of_diagnostics hd
    have herrors := Journal.errors_of_diagnostics hd
    rcases hresult with ⟨-, rfl, hout⟩ | ⟨_, e, -, rfl, he, hin⟩
    · rw [Finset.card_insert_of_notMem (mt hmem.2 hout)]
      simp only [List.countP_nil] at hwarnings herrors
      omega
    · rw [Finset.insert_eq_of_mem (hmem.1 hin)]
      simp only [List.countP_singleton, he, Bool.not_false, if_true] at hwarnings herrors
      simp at hwarnings
      omega
  refine ⟨result, y, hy, by rw [Indexer.sources, hscanner]; rfl, ?_,
    hresult.imp And.left fun ⟨taken, _, h, _⟩ => ⟨taken, h⟩⟩
  exact {
    preferences := by rw [hscanner]; exact h.preferences
    searchPath := hpath.trans h.searchPath
    tokens := by rw [hscanner]; exact h.tokens
    sources := by rw [hscanner]; exact h.sources
    warnings := hcounts.1.trans h.warnings
    symbols := ⟨r', hr', by rw [hkeys', hkeys, hset, Finset.image_insert]⟩
    errors := by
      rw [hset, hcounts.2, h.errors, List.length_append, List.length_singleton] }

/-- The file that an import names is opened. -/
theorem imported (h : Indexed p w classes imports tokens x) {found : FoundImport}
    (hfound : w.resolve t name = .ok found) (f : Source) :
    Indexed p w classes (imports ++ [name]) tokens (x.imported name found f) := by
  obtain ⟨events, hd, herrors, hwarnings⟩ := x.diagnostics_sayFound name found
  rw [redundant_of_resolve hfound] at hwarnings
  have hm := Scanner.metrics_suspend (x.sayFound name found).scanner f
  have hd' := (Scanner.diagnostics_suspend (x.sayFound name found).scanner f).trans hd
  exact {
    preferences := (preferences_imported ..).trans h.preferences
    searchPath := h.searchPath
    tokens := by
      rw [← h.tokens]
      exact (congrArg Metrics.tokens hm).trans rfl
    sources := by
      rw [List.length_append, List.length_singleton, ← Nat.add_assoc, ← h.sources]
      exact (congrArg Metrics.sources hm).trans rfl
    warnings := by
      rw [List.countP_append, List.countP_singleton, ← h.warnings, ← hwarnings]
      exact Journal.warnings_of_diagnostics hd'
    symbols := h.symbols
    errors := by
      rw [← h.errors]
      refine congrArg (· + _) ((Journal.errors_of_diagnostics hd').trans ?_)
      rw [herrors]
      rfl }

end Indexed

/-! ## Through a program -/

/-- What is inside a definition is passed over. -/
theorem drive_through (hthrough : Place.Through place us place')
    (hx : x.scanner.Comes (us ++ vs) outer []) (h : Indexed p w classes imports tokens x) :
    ∃ y, drive t place x = drive t place' y ∧ y.scanner.Comes vs outer [] ∧
      Indexed p w classes imports (tokens + us.length) y := by
  induction hthrough generalizing x tokens with
  | nil place => exact ⟨x, rfl, hx, h⟩
  | cons hin _ ih =>
    obtain ⟨z, f, hnext, -, hz, hf, hindexed⟩ := h.nextToken hx
    have hne := hx.kind_ne _ List.mem_cons_self
    obtain ⟨y, hdrive, hy, hindexed'⟩ :=
      ih (Scanner.comes_of_holds hz (hindexed.preferences ▸ hf)) hindexed
    refine ⟨y, (drive_of_goOn hnext (take_of_inside hin hne)).trans hdrive, hy, ?_⟩
    rw [List.length_cons, Nat.add_comm _ 1, ← Nat.add_assoc]
    exact hindexed'

/-- A definition is passed over, and its class declared. -/
theorem drive_definition {item : Item} (hitem : item.importName? = none)
    (hx : x.scanner.Comes (item.tokens ++ vs) outer []) (h : Indexed p w classes imports tokens x) :
    ∃ y, drive t .betweenDefinitions x = drive t .betweenDefinitions y ∧
      y.scanner.Comes vs outer [] ∧
      Indexed p w (classes ++ item.className?.toList) imports (tokens + item.tokens.length) y := by
  obtain ⟨form, us, hspelled⟩ := item
  cases hspelled with
  | importOf => cases hitem
  | @newClass word name rest hword hname hrest =>
    obtain ⟨z₁, f₁, hnext₁, -, hz₁, hf₁, h₁⟩ := h.nextToken hx
    obtain ⟨z₂, f₂, hnext₂, htext, hz₂, hf₂, h₂⟩ :=
      h₁.nextToken (Scanner.comes_of_holds hz₁ (h₁.preferences ▸ hf₁))
    obtain ⟨result, z₃, hdeclare, hz₃, h₃, hresult⟩ := h₂.declareClass name.text
    have htake₁ : take t .betweenDefinitions word.kind z₁ = .goOn .behindClass z₁ := by
      rw [hword]; rfl
    have htake₂ : take t .behindClass name.kind z₂ = .goOn .inHead z₃ := by
      rw [hname, take, nameClass, if_pos rfl, htext, hdeclare]
      rcases hresult with rfl | ⟨taken, rfl⟩ <;> rfl
    obtain ⟨y, hdrive, hy, h₄⟩ := drive_through (Place.through_rest hrest)
      (Scanner.comes_of_holds (hz₃.trans hz₂) (h₃.preferences ▸ hf₂)) h₃
    refine ⟨y, ?_, hy, ?_⟩
    · rw [drive_of_goOn hnext₁ htake₁, drive_of_goOn hnext₂ htake₂, hdrive]
    · rw [show tokens + (word :: name :: rest).length = tokens + 1 + 1 + rest.length from by
        simp only [List.length_cons]; omega]
      exact h₄
  | @other word rest hword hrest =>
    obtain ⟨z, f, hnext, -, hz, hf, h₁⟩ := h.nextToken hx
    have htake : take t .betweenDefinitions word.kind z = .goOn .inHead z := by
      rcases hword with hk | hk | hk | hk <;> rw [hk] <;> rfl
    obtain ⟨y, hdrive, hy, h₂⟩ := drive_through (Place.through_rest hrest)
      (Scanner.comes_of_holds hz (h₁.preferences ▸ hf)) h₁
    refine ⟨y, (drive_of_goOn hnext htake).trans hdrive, hy, ?_⟩
    rw [show tokens + (word :: rest).length = tokens + 1 + rest.length from by
        simp only [List.length_cons]; omega]
    simpa [Item.className?] using h₂

/-- An import opens its file. -/
theorem drive_import {item : Item} {found : FoundImport} (hitem : item.importName? = some name)
    (hx : x.scanner.Comes (item.tokens ++ vs) outer [])
    (h : Indexed p w classes imports tokens x) (hroom : outer.length + 1 < maxDepth)
    (hfound : w.resolve t name = .ok found) (hus : t.Scans p found.path us []) :
    ∃ y f, drive t .betweenDefinitions x = drive t .betweenDefinitions y ∧
      y.scanner.Comes us (f :: outer) [] ∧ f.Holds p.warnUnrecognized vs [] ∧
      Indexed p w classes (imports ++ [name]) (tokens + item.tokens.length) y := by
  obtain ⟨form, ts, hspelled⟩ := item
  cases hspelled with
  | newClass => cases hitem
  | other => cases hitem
  | @importOf word quoted hword hquoted =>
    cases hitem
    obtain ⟨z₁, f₁, hnext₁, -, hz₁, hf₁, h₁⟩ := h.nextToken hx
    obtain ⟨z₂, f, hnext₂, htext, hz₂, hf₂, h₂⟩ :=
      h₁.nextToken (Scanner.comes_of_holds hz₁ (h₁.preferences ▸ hf₁))
    obtain ⟨g, hopen, hg⟩ := openImport_of_scans (x := z₂) (h₂.searchPath.symm ▸ hfound) hus
      (by rw [hz₂]; exact hroom)
    have h₃ := h₂.imported hfound g
    have htake₁ : take t .betweenDefinitions word.kind z₁ = .goOn .behindImport z₁ := by
      rw [hword]; rfl
    have htake₂ : take t .behindImport quoted.kind z₂
        = .goOn .betweenDefinitions (z₂.imported quoted.text found g) := by
      rw [hquoted, take, followImport, if_pos rfl, htext, hopen]
    refine ⟨_, f, ?_, ?_, hf₂, h₃⟩
    · rw [drive_of_goOn hnext₁ htake₁, drive_of_goOn hnext₂ htake₂]
    · refine Scanner.comes_of_holds ?_ (h₃.preferences ▸ hg)
      exact (sources_imported ..).trans (congrArg (g :: ·) hz₂)

/-- **A file is indexed with everything it imports,** and nothing around it is touched. -/
theorem drive_expands {n : Nat} {items out : List Item} (hout : Expands t p w n items out)
    (hx : x.scanner.Comes (tokensOf items) outer []) (hdepth : outer.length + 1 + n ≤ maxDepth)
    (h : Indexed p w classes imports tokens x) :
    ∃ y, drive t .betweenDefinitions x = drive t .betweenDefinitions y ∧
      y.scanner.Comes [] outer [] ∧
      Indexed p w (classes ++ classNames out) (imports ++ importNames out)
        (tokens + (tokensOf out).length) y := by
  induction hout generalizing x outer classes imports tokens with
  | nil => exact ⟨x, rfl, hx, by simpa [classNames, importNames, tokensOf] using h⟩
  | @keep n item items out hitem _ ih =>
    obtain ⟨y, hdrive, hy, h₁⟩ := drive_definition hitem hx h
    obtain ⟨z, hdrive', hz, h₂⟩ := ih hy hdepth h₁
    refine ⟨z, hdrive.trans hdrive', hz, ?_⟩
    simpa [hitem, Nat.add_assoc] using h₂
  | @follow n item name found items inner out out' hitem hfound hinner _ _ ihinner ih =>
    obtain ⟨y, f, hdrive, hy, hf, h₁⟩ := drive_import hitem hx h (by omega) hfound hinner
    obtain ⟨z, hdrive', hz, h₂⟩ := ihinner hy (by rw [List.length_cons]; omega) h₁
    have hback : z.scanner.Comes (tokensOf items) outer [] :=
      Scanner.comes_of_ended hz (h₂.preferences.symm ▸ hf)
    obtain ⟨z', hdrive'', hz', h₃⟩ := ih hback hdepth h₂
    refine ⟨z', hdrive.trans (hdrive'.trans hdrive''), hz', ?_⟩
    simpa [hitem, Item.className?_of_importName? hitem, Nat.add_assoc] using h₃

/-- At the end of the program the run is over. -/
theorem drive_end (hx : x.scanner.Comes [] [] []) (h : Indexed p w classes imports tokens x) :
    ∃ y, drive t .betweenDefinitions x = (.ok (), y) ∧ Indexed p w classes imports tokens y := by
  obtain ⟨hk, hd, hs⟩ := Scanner.next_of_end hx
  have hm : x.scanner.next.2.metrics = x.scanner.metrics := by
    rw [Scanner.metrics_next, hk]; rfl
  refine ⟨x.nextToken.2, drive_of_stop (Prod.ext hk rfl) rfl, ?_⟩
  exact {
    preferences := (Scanner.preferences_next _).trans h.preferences
    searchPath := h.searchPath
    tokens := (congrArg Metrics.tokens hm).trans h.tokens
    sources := (congrArg Metrics.sources hm).trans h.sources
    warnings := (Journal.warnings_of_diagnostics hd).trans h.warnings
    symbols := h.symbols
    errors := h.errors ▸ congrArg (· + _) (Journal.errors_of_diagnostics hd) }

/-- **A run of a well-formed program declares exactly the classes of its expansion,** and says so:
it counts one error for each class whose name is taken, one warning for each import that is named
with its extension, and every source and token of the expansion. -/
theorem run_declares {path : String} {items out : List Item} (hmain : t.WellFormed p path items)
    (hout : Expands t p w (maxDepth - 1) items out) :
    ∃ s y, run t path (new p w .empty) = (.ok s, y) ∧
      (∀ key, key ∈ y.symbols.names ↔ ∃ name ∈ classNames out, key = "$" ++ name) ∧
      s.errors = (classNames out).length - (classNames out).toFinset.card ∧
      s.warnings = (importNames out).countP hasExtension ∧
      s.symbols = (classNames out).toFinset.card ∧
      s.sources = 1 + (importNames out).length ∧
      s.tokens = (tokensOf out).length := by
  let start := (new p w .empty).add (.note (startNote path))
  obtain ⟨f, hfile, hf⟩ := openFile_of_scans (x := start) hmain (Nat.zero_lt_succ 14)
  let x : Indexer := { start with scanner := start.scanner.suspend f }
  have hd : x.journal.diagnostics = [] := Scanner.diagnostics_suspend start.scanner f
  have hx : Indexed p w [] [] 0 x := {
    preferences := Scanner.preferences_suspend _ _
    searchPath := rfl
    tokens := congrArg Metrics.tokens (Scanner.metrics_suspend start.scanner f)
    sources := congrArg Metrics.sources (Scanner.metrics_suspend start.scanner f)
    warnings := by rw [Journal.warnings, hd]; rfl
    symbols := ⟨_, SymbolTable.keeps_empty, rfl⟩
    errors := by rw [Journal.errors, hd]; rfl }
  have hcomes : x.scanner.Comes (tokensOf items) [] [] :=
    Scanner.comes_of_holds (Scanner.sources_suspend _ _) (hx.preferences.symm ▸ hf)
  obtain ⟨y, hdrive, hy, h₁⟩ := drive_expands hout hcomes (by decide) hx
  obtain ⟨z, hend, h⟩ := drive_end (t := t) hy h₁
  simp only [List.nil_append, Nat.zero_add] at h
  obtain ⟨r, hr, hkeys⟩ := h.symbols
  have hrun : run t path (new p w .empty) = finish path (.ok (), z) := by
    rw [run_of_openFile hfile, hdrive, hend]
  refine ⟨z.summary, _, hrun, fun key => ?_, Nat.eq_sub_of_add_eq h.errors, h.warnings, ?_,
    h.sources, h.tokens⟩
  · show key ∈ z.symbols.names ↔ _
    rw [hr.mem_names, ← Finmap.mem_keys, hkeys]
    simp [classKey, eq_comm]
  · show z.symbols.size = _
    rw [hr.size_eq, hkeys, Finset.card_image_of_injective _ classKey_injective]

/-- A class of an imported file is met again in the file that imports it under its full name. -/
theorem run_declares_twice :
    let t : FileTree := ⟨[["w"]], [(["a.g", "w"], Text.utf8 "class A \x7b \x7d"),
      (["main.g"], Text.utf8 "import \"a.g\" class A;")]⟩
    let w : SearchPath := ⟨["w"], []⟩
    let word : Scanned := ⟨.classWord, Text.utf8 "class"⟩
    let name : Scanned := ⟨.identifier, Text.utf8 "A"⟩
    let quoted : Scanned := ⟨.quoted, Text.utf8 "a.g"⟩
    let inner : Item := ⟨.newClass name.text,
      [word, name, ⟨.openCurly, Text.utf8 "\x7b"⟩, ⟨.closeCurly, Text.utf8 "\x7d"⟩],
      .newClass rfl rfl (@Rest.block [] [] _ _ (by simp [Token.Head]) rfl .nil rfl)⟩
    let first : Item := ⟨.importOf quoted.text, [⟨.importWord, Text.utf8 "import"⟩, quoted],
      .importOf rfl rfl⟩
    let last : Item := ⟨.newClass name.text, [word, name, ⟨.semicolon, Text.utf8 ";"⟩],
      .newClass rfl rfl (@Rest.bare [] _ (by simp [Token.Head]) rfl)⟩
    t.WellFormed default "main.g" [first, last] ∧
      Expands t default w (maxDepth - 1) [first, last] [first, inner, last] ∧
      ∃ y, run t "main.g" (new default w .empty) = (.ok ⟨1, 1, 9, 1, 2⟩, y) ∧
        ∀ key, key ∈ y.symbols.names ↔ key = "$A" := by
  intro t w word name quoted inner first last
  let opened (path : String) : Scanner := ((Scanner.new default .empty).openFile t path).2
  obtain ⟨hmain, hinner, hfound, hnames, himports⟩ :
      ((opened "main.g").scan.1 = tokensOf [first, last] ∧
        (opened "main.g").scan.2.journal.diagnostics = []) ∧
      ((opened "w/a.g").scan.1 = tokensOf [inner] ∧
        (opened "w/a.g").scan.2.journal.diagnostics = []) ∧
      w.resolve t quoted.text = .ok ⟨"w/a.g", true⟩ ∧
      classNames [first, inner, last] = ["A", "A"] ∧
      importNames [first, inner, last] = ["a.g"] := by decide +kernel
  have hwell : t.WellFormed default "main.g" [first, last] := ⟨_, rfl, hmain⟩
  have hout : Expands t default w (maxDepth - 1) [first, last] [first, inner, last] :=
    .follow rfl hfound ⟨_, rfl, hinner⟩ (.keep rfl .nil) (.keep rfl .nil)
  obtain ⟨⟨errors, warnings, tokens, symbols, sources⟩, y, hrun, hkeys, herrors, hwarnings,
    hsymbols, hsources, htokens⟩ := run_declares hwell hout
  rw [hnames] at herrors hsymbols
  rw [himports] at hwarnings hsources
  dsimp only at herrors hwarnings hsymbols hsources htokens
  refine ⟨hwell, hout, y, ?_, fun key => ?_⟩
  · rw [hrun, herrors, hwarnings, hsymbols, hsources, htokens]
    rfl
  · rw [hkeys, hnames]
    simp

end Indexer
end ClassIndex
