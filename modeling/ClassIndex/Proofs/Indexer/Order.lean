/-
# Declaration order does not show

Slots and growth of a table depend on the order in which keys go in. Nothing that can be asked of
a symbol table or of an index tells of it (`order_hidden`): the names are listed in the order of
their bytes, and what is stored under a name depends on its declaration only. An index declares
classes and nothing else (`Classed.invariant`), so the names alone make its listing of symbols.
-/

import ClassIndex.Proofs.Indexer.Invariant
import ClassIndex.Proofs.Scanner.Listing
import ClassIndex.Proofs.SymbolTable.Order

namespace ClassIndex

open Diagnostic (Journal)

namespace Indexer

variable {x y : Indexer}

/-! ## The classes of an index -/

/-- A table in order with nothing but classes in it. -/
def Classed (symbols : SymbolTable) : Prop :=
  ∃ r, symbols.Keeps r ∧ ∀ key, ∀ s ∈ r.symbols.lookup key, s = Symbol.newClass.named key

namespace Classed

variable {symbols symbols' : SymbolTable}

theorem new (p : ScanPreferences) (w : SearchPath) (j : Journal) :
    Classed (Indexer.new p w j).symbols :=
  ⟨⟨∅, ""⟩, SymbolTable.keeps_empty, by simp⟩

theorem declare (h : Classed symbols) (j : Journal) (name : String) :
    Classed ((symbols.beginDecoration.addName name).declare j .newClass).2.1 := by
  obtain ⟨r, hr, hclasses⟩ := h
  have hnamed : (symbols.beginDecoration.addName name).Keeps { r with key := classKey name } :=
    hr.beginDecoration.addComponent (by decide) (by decide)
  obtain ⟨r', events, ha, hr', -⟩ := hnamed.declare j .newClass
  simp only [SymbolTable.answer] at ha hr'
  generalize (symbols.beginDecoration.addName name).declare j .newClass = step at ha hr' ⊢
  obtain ⟨result, symbols', j'⟩ := step
  refine ⟨r', hr', fun key s hs => ?_⟩
  simp only [Prod.map, id] at ha
  cases ha with
  | declareMismatch | declarePresent => exact hclasses key s hs
  | declare =>
    by_cases hkey : key = classKey name
    · subst hkey
      rw [Register.put, Finmap.lookup_insert] at hs
      exact (Option.mem_some.1 hs).symm
    · rw [Register.put, Finmap.lookup_insert_of_ne _ hkey] at hs
      exact hclasses key s hs

/-- **An index never stores anything but classes.** -/
theorem invariant : Invariant fun x => Classed x.symbols where
  nextToken h := h
  report _ h := h
  reportToken _ h := h
  openFile t path h := by
    unfold openFile
    split <;> exact h
  openImport {x} t name h := by
    rw [(openImport_symbols x t name).1]
    exact h
  declareClass {x} name h := by
    have hdeclared := h.declare x.journal name
    unfold declareClass
    generalize (x.symbols.beginDecoration.addName name).declare x.journal .newClass = step
      at hdeclared ⊢
    exact hdeclared
  writeLine _ _ h := h
  refusal _ h := h
  note _ h := h

theorem contains_iff (h : Classed symbols) (key : String) :
    symbols.contains key = true ↔ key ∈ symbols.names := by
  obtain ⟨r, hr, -⟩ := h
  rw [hr.contains_eq, Finmap.lookup_isSome, hr.mem_names]

/-- **Tables of classes are alike if they have the same keys:** in their names, and in what is
stored under them. -/
theorem alike (h : Classed symbols) (h' : Classed symbols')
    (hkeys : ∀ key, symbols.contains key = symbols'.contains key) :
    symbols.names = symbols'.names ∧ ∀ key, symbols.lookup key = symbols'.lookup key := by
  obtain ⟨r, hr, hclasses⟩ := h
  obtain ⟨r', hr', hclasses'⟩ := h'
  have hmem (key : String) : key ∈ r.symbols ↔ key ∈ r'.symbols := by
    rw [← Finmap.lookup_isSome, ← hr.contains_eq, hkeys, hr'.contains_eq, Finmap.lookup_isSome]
  refine ⟨hr.names_eq hr' hmem, fun key => ?_⟩
  have hsame : r.symbols.lookup key = r'.symbols.lookup key := by
    by_cases hkey : key ∈ r.symbols
    · obtain ⟨s, hs⟩ := Finmap.mem_iff.1 hkey
      obtain ⟨s', hs'⟩ := Finmap.mem_iff.1 ((hmem key).1 hkey)
      rw [hs, hs', hclasses key s hs, hclasses' key s' hs']
    · rw [Finmap.lookup_eq_none.2 hkey, Finmap.lookup_eq_none.2 fun h => hkey ((hmem key).2 h)]
  rw [hr.lookup_eq, hr'.lookup_eq, hsame]

end Classed

/-! ## The listing of symbols -/

theorem listSymbols_cons (sink : Sink) (key : String) (keys : List String) (x : Indexer) :
    listSymbols sink (key :: keys) x =
      match x.symbols.lookup key with
      | .error e => (.error (.symbols e), x.withJournal (e.record x.journal))
      | .ok s =>
        match x.writeLine sink (symbolLine key s) with
        | (.error e, y) => (.error e, y)
        | (.ok sink, y) => listSymbols sink keys y := by
  rw [listSymbols, SymbolTable.resolve]
  cases x.symbols.lookup key <;> rfl

/-- **Indexes with the same under every key list keys alike:** with the same result, and the same
bytes behind what was written before. -/
theorem listSymbols_alike (sink : Sink) (keys : List String)
    (h : ∀ key, x.symbols.lookup key = y.symbols.lookup key) :
    (listSymbols sink keys x).1 = (listSymbols sink keys y).1 ∧
      ∃ bytes, (listSymbols sink keys x).2.journal.output = x.journal.output ++ bytes ∧
        (listSymbols sink keys y).2.journal.output = y.journal.output ++ bytes := by
  induction keys generalizing sink x y with
  | nil => exact ⟨rfl, [], (List.append_nil _).symm, (List.append_nil _).symm⟩
  | cons key keys ih =>
    rw [listSymbols_cons, listSymbols_cons, h key]
    cases y.symbols.lookup key with
    | error e => exact ⟨rfl, [], Journal.output_add .., Journal.output_add ..⟩
    | ok s =>
      -- what fits, and whether all of the line does, is up to the output alone
      obtain ⟨result, fitting, hline⟩ : ∃ result fitting, ∀ x : Indexer,
          x.writeLine sink (symbolLine key s) = (result, x.add (.output fitting)) :=
        ⟨_, _, fun _ => rfl⟩
      have hwritten (x : Indexer) :
          (x.add (.output fitting)).journal.output = x.journal.output ++ fitting :=
        Journal.output_add ..
      dsimp only
      rw [hline, hline]
      cases result with
      | error e => exact ⟨rfl, fitting, hwritten x, hwritten y⟩
      | ok left =>
        obtain ⟨hresult, bytes, hx, hy⟩ :=
          ih (x := x.add (.output fitting)) (y := y.add (.output fitting)) left h
        rw [hwritten, List.append_assoc] at hx hy
        exact ⟨hresult, fitting ++ bytes, hx, hy⟩

open SymbolTable (Declaration empty)

/-- **Declaration order does not show.** Declarations under different names leave tables that list
the same names, each once and in the order of their bytes, whatever order they are made in; that
have the same size, and the same symbol or refusal for every name. Whatever indexes were asked
before, they write the same bytes for their symbols if they have the same names, whether or not all
of them fit. -/
theorem order_hidden :
    (∀ (ds ds' : List Declaration) (j j' : Journal), ds.Perm ds' →
      (ds.map Declaration.key).Nodup → (∀ d ∈ ds, d.symbol.Fits) →
      let t := (empty.run j (ds.flatMap Declaration.toCalls)).2.1
      let t' := (empty.run j' (ds'.flatMap Declaration.toCalls)).2.1
      t.names = t'.names ∧ t.names.Pairwise (fun a b => Text.utf8 a < Text.utf8 b) ∧
        t.names.Perm (ds.map Declaration.key) ∧ t.size = t'.size ∧ t.size = ds.length ∧
        ∀ k key, t.resolve k key = t'.resolve k key) ∧
    ∀ (p p' : ScanPreferences) (w w' : SearchPath) (j j' : Journal) (calls calls' : List Call)
      (sink : Sink),
      let x := (new p w j).after calls
      let y := (new p' w' j').after calls'
      (∀ key, x.symbols.contains key = y.symbols.contains key) →
        (writeSymbols sink x).1 = (writeSymbols sink y).1 ∧
        ∃ bytes, (writeSymbols sink x).2.journal.output = x.journal.output ++ bytes ∧
          (writeSymbols sink y).2.journal.output = y.journal.output ++ bytes := by
  constructor
  · intro ds ds' j j' hperm hnodup hfits t t'
    have hnodup' : (ds'.map Declaration.key).Nodup := (hperm.map _).nodup_iff.1 hnodup
    have hfits' : ∀ d ∈ ds', d.symbol.Fits := fun d hd => hfits d (hperm.mem_iff.2 hd)
    obtain ⟨key, h⟩ := SymbolTable.keeps_declared j hnodup hfits
    obtain ⟨key', h'⟩ := SymbolTable.keeps_declared j' hnodup' hfits'
    have hsymbols := SymbolTable.declared_perm hperm hnodup
    refine ⟨h.names_eq h' fun _ => by rw [hsymbols], h.names_pairwise,
      h.names_perm hnodup SymbolTable.mem_declared, ?_, ?_, h.resolve_eq h' hsymbols⟩
    · exact (h.size_eq.trans (by rw [hsymbols])).trans h'.size_eq.symm
    · exact h.size_eq.trans (SymbolTable.card_declared hnodup)
  · intro p p' w w' j j' calls calls' sink x y hkeys
    have hx := Classed.invariant.after calls (Classed.new p w j)
    have hy := Classed.invariant.after calls' (Classed.new p' w' j')
    obtain ⟨hnames, hlookup⟩ := hx.alike hy hkeys
    rw [writeSymbols, writeSymbols, hnames]
    exact listSymbols_alike sink _ hlookup

/-- Two classes are declared, or met in a source, one way and the other. -/
theorem order_hidden_of_two :
    let A : Declaration := ⟨[.addName "A"], by simpa using .addName "A", .newClass⟩
    let B : Declaration := ⟨[.addName "B"], by simpa using .addName "B", .newClass⟩
    let table (ds : List Declaration) := (empty.run .empty (ds.flatMap Declaration.toCalls)).2.1
    let t : FileTree :=
      ⟨[], [(["ab.g"], Text.utf8 "class A;class B;"), (["ba.g"], Text.utf8 "class B;class A;")]⟩
    let x := (new default ⟨[], []⟩ .empty).after [.run t "ab.g"]
    let y := (new default ⟨[], []⟩ .empty).after [.run t "ba.g"]
    ((table [A, B]).names = (table [B, A]).names ∧ (table [A, B]).names.Perm ["$A", "$B"]) ∧
      (∀ key, x.symbols.contains key = y.symbols.contains key) ∧
      x.symbols.contains "$A" = true ∧
      ∃ bytes, (writeSymbols .unlimited x).2.journal.output = x.journal.output ++ bytes ∧
        (writeSymbols .unlimited y).2.journal.output = y.journal.output ++ bytes := by
  intro A B table t x y
  obtain ⟨hnames, -, hperm, -⟩ := order_hidden.1 [A, B] [B, A] .empty .empty (.swap B A [])
    (by decide) (by simp [A, B, Symbol.Fits, Symbol.newClass, Symbol.new])
  have hscan : ∀ path ∈ ["ab.g", "ba.g"],
      (loop (driveRound t) 7 (.betweenDefinitions,
          (((new default ⟨[], []⟩ .empty).add (.note (startNote path))).openFile t path).2)).map
        (fun r => (r.1.toOption, r.2.summary, r.2.symbols.table.keys))
          = some (some (), ⟨0, 0, 6, 2, 1⟩, ["$B", "$A"]) := by decide +kernel
  have hafter : ∀ path ∈ ["ab.g", "ba.g"], ∀ key,
      ((new default ⟨[], []⟩ .empty).after [.run t path]).symbols.contains key = true ↔
        key ∈ ["$B", "$A"] := by
    intro path hpath key
    have hopen : ∃ y, ((new default ⟨[], []⟩ .empty).add (.note (startNote path))).openFile t path
        = (.ok (), y) := by
      simp only [List.mem_cons, List.not_mem_nil, or_false] at hpath
      rcases hpath with rfl | rfl <;> exact ⟨_, rfl⟩
    obtain ⟨y, hopen⟩ := hopen
    have hloop := hscan path hpath
    rw [hopen] at hloop
    obtain ⟨z, hrun, hnames⟩ := run_of_loop hopen hloop
    have hclassed := Classed.invariant.after [.run t path] (Classed.new default ⟨[], []⟩ .empty)
    rw [hclassed.contains_iff, ← hnames]
    exact iff_of_eq (congrArg (fun r => key ∈ r.2.symbols.names) hrun)
  have hx := hafter "ab.g" (by decide)
  have hy := hafter "ba.g" (by decide)
  have hsame (key : String) : x.symbols.contains key = y.symbols.contains key :=
    Bool.eq_iff_iff.2 ((hx key).trans (hy key).symm)
  exact ⟨⟨hnames, hperm⟩, hsame, (hx "$A").2 (by decide),
    (order_hidden.2 default default _ _ .empty .empty _ _ .unlimited hsame).2⟩

end Indexer
end ClassIndex
