/-
# Sources that end between definitions

Where every source ends between definitions, what one source holds has no bearing on what is
found in another: a run that comes to its end has declared just the classes met in the source and
in all that it includes (`run_knows`), among them every class that a source declares by itself,
with nothing in its imports (`run_keeps_included`).

A source may end elsewhere without a fault, and then its end hides what follows in the source
around it: the class behind the import is passed over as a part of the head that was left open
(`open_head_hides_class`).
-/

import ClassIndex.Proofs.Indexer.Effect
import ClassIndex.Proofs.Indexer.Place
import ClassIndex.Proofs.Indexer.Termination

namespace ClassIndex

open Token (Kind Scanned)

namespace Indexer

namespace Place

/-- The place to which a row of tokens leads. -/
def along : Place → List Scanned → Place
  | place, [] => place
  | place, u :: us => along (place.pass u.kind) us

/-- The texts of the tokens of a kind that a row of tokens has at a place. -/
def textsAt (wanted : Place) (kind : Kind) : Place → List Scanned → List String
  | _, [] => []
  | place, u :: us =>
    (if place = wanted ∧ u.kind = kind then [u.text] else [])
      ++ textsAt wanted kind (place.pass u.kind) us

/-- The names of the classes in a row of tokens. -/
def classes (place : Place) (us : List Scanned) : List String :=
  textsAt .behindClass .identifier place us

/-- The names of the imports in a row of tokens. -/
def imports (place : Place) (us : List Scanned) : List String :=
  textsAt .behindImport .quoted place us

end Place

/-- A class is met in a row of tokens, or in a file that is imported there. -/
inductive Meets (t : FileTree) (p : ScanPreferences) (w : SearchPath) :
    Place → List Scanned → String → Prop
  | own {place : Place} {us : List Scanned} {name : String} : name ∈ place.classes us →
      Meets t p w place us name
  | inside {place : Place} {us vs : List Scanned} {i name : String} {found : FoundImport}
      {events : List Diagnostic.Event} : i ∈ place.imports us → w.resolve t i = .ok found →
      t.Scans p found.path vs events → Meets t p w .betweenDefinitions vs name →
      Meets t p w place us name

/-- A file leads to another through imports, or is it. -/
inductive Includes (t : FileTree) (p : ScanPreferences) (w : SearchPath) :
    String → String → Prop
  | self (path : String) : Includes t p w path path
  | through {path path' i : String} {us : List Scanned} {found : FoundImport}
      {events : List Diagnostic.Event} : t.Scans p path us events →
      i ∈ Place.betweenDefinitions.imports us → w.resolve t i = .ok found →
      Includes t p w found.path path' → Includes t p w path path'

/-- A file by itself ends between definitions. -/
def EndsBetween (t : FileTree) (p : ScanPreferences) (path : String) : Prop :=
  ∀ us events, t.Scans p path us events →
    Place.betweenDefinitions.along us = .betweenDefinitions

/-- In the other tree a file is the same, and its imports lead to empty files. -/
structure Alone (t : FileTree) (p : ScanPreferences) (w : SearchPath) (path : String)
    (t' : FileTree) : Prop where
  read : t'.read path = t.read path
  imports : ∀ us events, t.Scans p path us events →
    ∀ i ∈ Place.betweenDefinitions.imports us,
      ∃ found, w.resolve t' i = .ok found ∧ t'.read found.path = .ok ([], none)

/-- The keys that an index has. -/
structure Knows (p : ScanPreferences) (w : SearchPath) (keys : Set String) (x : Indexer) :
    Prop where
  preferences : x.scanner.preferences = p
  searchPath : x.searchPath = w
  symbols : ∃ r, x.symbols.Keeps r ∧ (r.symbols.keys : Set String) = keys

/-- The keys of the classes that are met. -/
def metKeys (t : FileTree) (p : ScanPreferences) (w : SearchPath) (place : Place)
    (us : List Scanned) : Set String :=
  classKey '' {name | Meets t p w place us name}

variable {t : FileTree} {p : ScanPreferences} {w : SearchPath} {place place' : Place}
  {kind : Kind} {u : Scanned} {us vs : List Scanned} {outer : List Source}
  {events : List Diagnostic.Event} {keys : Set String} {x y z : Indexer}
  {name text path : String} {found : FoundImport} {n : Nat}

/-! ## What is met -/

theorem mem_textsAt_cons {wanted : Place} {kind : Kind} {name : String} :
    name ∈ Place.textsAt wanted kind place (u :: us) ↔
      (place = wanted ∧ u.kind = kind ∧ name = u.text) ∨
        name ∈ Place.textsAt wanted kind (place.pass u.kind) us := by
  rw [Place.textsAt, List.mem_append]
  refine or_congr_left ?_
  split
  · rename_i h; simp [h.1, h.2]
  · rename_i h
    simp only [List.not_mem_nil, false_iff]
    exact fun h' => h ⟨h'.1, h'.2.1⟩

theorem not_meets_nil : ¬ Meets t p w place [] name := by
  intro h
  cases h with
  | own h => cases h
  | inside h => cases h

theorem meets_cons : Meets t p w place (u :: us) name ↔
    (place = .behindClass ∧ u.kind = .identifier ∧ name = u.text) ∨
      (place = .behindImport ∧ u.kind = .quoted ∧ ∃ found vs events,
        w.resolve t u.text = .ok found ∧ t.Scans p found.path vs events ∧
          Meets t p w .betweenDefinitions vs name) ∨
      Meets t p w (place.pass u.kind) us name := by
  constructor
  · intro h
    cases h with
    | own h =>
      rcases mem_textsAt_cons.1 h with h | h
      · exact .inl h
      · exact .inr (.inr (.own h))
    | inside hi hfound hvs hmeets =>
      rcases mem_textsAt_cons.1 hi with ⟨hplace, hkind, rfl⟩ | hi
      · exact .inr (.inl ⟨hplace, hkind, _, _, _, hfound, hvs, hmeets⟩)
      · exact .inr (.inr (.inside hi hfound hvs hmeets))
  · rintro (h | ⟨hplace, hkind, found, vs, events, hfound, hvs, hmeets⟩ | h)
    · exact .own (mem_textsAt_cons.2 (.inl h))
    · exact .inside (mem_textsAt_cons.2 (.inl ⟨hplace, hkind, rfl⟩)) hfound hvs hmeets
    · cases h with
      | own h => exact .own (mem_textsAt_cons.2 (.inr h))
      | inside hi hfound hvs hmeets =>
        exact .inside (mem_textsAt_cons.2 (.inr hi)) hfound hvs hmeets

/-! ## One token -/

namespace Knows

theorem mem_names (h : Knows p w keys x) (key : String) : key ∈ x.symbols.names ↔ key ∈ keys := by
  obtain ⟨r, hr, rfl⟩ := h.symbols
  rw [hr.mem_names, Finset.mem_coe, Finmap.mem_keys]

/-- What leaves the symbols alone leaves the keys. -/
theorem congr (h : Knows p w keys x) (hsymbols : y.symbols = x.symbols)
    (hpath : y.searchPath = x.searchPath)
    (hpreferences : y.scanner.preferences = x.scanner.preferences) : Knows p w keys y where
  preferences := hpreferences.trans h.preferences
  searchPath := hpath.trans h.searchPath
  symbols := hsymbols ▸ h.symbols

/-- The name of a class adds its key, whether or not it was there. -/
theorem declares (h : Knows p w keys x) (t : FileTree) (htext : x.scanner.lexemeText = text) :
    ∃ y, take t .behindClass .identifier x = .goOn .inHead y ∧ (x.declareClass text).2 = y ∧
      y.sources = x.sources ∧ Knows p w (insert (classKey text) keys) y := by
  obtain ⟨r, hr, rfl⟩ := h.symbols
  obtain ⟨result, y, r', events, hy, hscanner, hpath, hr', hkeys, -, hresult⟩ :=
    declareClass_spec hr text
  refine ⟨y, ?_, by rw [hy], by rw [sources, hscanner]; rfl, ?_⟩
  · rw [take, nameClass, if_pos rfl, htext, hy]
    rcases hresult with ⟨rfl, -⟩ | ⟨taken, e, rfl, -⟩ <;> rfl
  · exact ⟨by rw [hscanner]; exact h.preferences, hpath.trans h.searchPath, r', hr',
      by rw [hkeys, Finset.coe_insert]⟩

variable (t place) in
/-- **What a token can do:** stop the run with an error, add the key of a class, open a source, or
lead on. -/
theorem take_cases (h : Knows p w keys x) (hk : kind ≠ .endOfInput)
    (htext : x.scanner.lexemeText = text) :
    (∃ e y, take t place kind x = .stop (.error e) y ∧ Knows p w keys y) ∨
      ∃ y, take t place kind x = .goOn (place.pass kind) y ∧
        ((place = .behindClass ∧ kind = .identifier ∧ y.sources = x.sources ∧
            Knows p w (insert (classKey text) keys) y) ∨
          (place = .behindImport ∧ kind = .quoted ∧ Knows p w keys y ∧
            ∃ found us events f, w.resolve t text = .ok found ∧ t.Scans p found.path us events ∧
              f.Holds p.warnUnrecognized us events ∧ y.sources = f :: x.sources) ∨
          (¬ (place = .behindClass ∧ kind = .identifier) ∧
            ¬ (place = .behindImport ∧ kind = .quoted) ∧ y.sources = x.sources ∧
            Knows p w keys y)) := by
  by_cases hclass : place = .behindClass ∧ kind = .identifier
  · obtain ⟨rfl, rfl⟩ := hclass
    obtain ⟨y, htake, -, hsources, hknows⟩ := h.declares t htext
    exact .inr ⟨y, htake, .inl ⟨rfl, rfl, hsources, hknows⟩⟩
  by_cases himport : place = .behindImport ∧ kind = .quoted
  · obtain ⟨rfl, rfl⟩ := himport
    obtain ⟨hsymbols, hpath, hpreferences⟩ := openImport_symbols x t x.scanner.lexemeText
    have hknows := h.congr hsymbols hpath hpreferences
    rcases hopen : x.openImport t x.scanner.lexemeText with ⟨e | _, y⟩
    · rw [hopen] at hknows
      exact .inl ⟨e, y, by rw [take, followImport, if_pos rfl, hopen], hknows⟩
    · rw [hopen] at hknows
      obtain ⟨found, us, events, f, hfound, hscans, hf, rfl⟩ := scans_of_openImport hopen p
      rw [htext, h.searchPath] at hfound
      refine .inr ⟨_, ?_, .inr (.inl ⟨rfl, rfl, hknows, found, us, events, f, hfound, hscans, hf,
        sources_imported ..⟩)⟩
      rw [take, followImport, if_pos rfl, hopen]
      rfl
  · obtain ⟨y, htake, hy⟩ := take_of_unnamed (t := t) (x := x) hk hclass himport
    refine .inr ⟨y, htake, .inr (.inr ⟨hclass, himport, ?_⟩)⟩
    rcases hy with rfl | ⟨f, -, rfl | rfl⟩
    · exact ⟨rfl, h⟩
    · exact ⟨rfl, h.congr rfl rfl rfl⟩
    · exact ⟨rfl, h.congr rfl rfl rfl⟩

end Knows

/-- A token is read and taken, and then the run is over or goes on. -/
theorem endsWithin_cases {r : Except IndexError Unit × Indexer}
    (h : EndsWithin (driveRound t) n (place, x) r) (hn : x.nextToken = (kind, z)) :
    ∃ k < n, take t place kind z = .stop r.1 r.2 ∨
      ∃ place' y, take t place kind z = .goOn place' y ∧
        EndsWithin (driveRound t) k (place', y) r := by
  cases n with
  | zero => cases h
  | succ k =>
    refine ⟨k, Nat.lt_succ_self k, ?_⟩
    unfold EndsWithin loop driveRound at h
    simp only [hn] at h
    cases htake : take t place kind z with
    | stop result y =>
      rw [htake] at h
      cases h
      exact .inl rfl
    | goOn place' y =>
      rw [htake] at h
      exact .inr ⟨place', y, rfl, h⟩

/-! ## A whole source -/

/-- What is met behind the name of a class. -/
theorem metKeys_class (hplace : place = .behindClass) (hkind : u.kind = .identifier) :
    metKeys t p w place (u :: us)
      = insert (classKey u.text) (metKeys t p w (place.pass u.kind) us) := by
  rw [metKeys, metKeys, ← Set.image_insert_eq]
  refine congrArg _ (Set.ext fun name => meets_cons.trans ?_)
  constructor
  · rintro (⟨-, -, rfl⟩ | ⟨himport, -⟩ | h)
    · exact .inl rfl
    · cases hplace.symm.trans himport
    · exact .inr h
  · rintro (rfl | h)
    · exact .inl ⟨hplace, hkind, rfl⟩
    · exact .inr (.inr h)

/-- What is met behind the name of an import. -/
theorem metKeys_import (hplace : place = .behindImport) (hkind : u.kind = .quoted)
    (hfound : w.resolve t u.text = .ok found) (hvs : t.Scans p found.path vs events) :
    metKeys t p w place (u :: us)
      = metKeys t p w .betweenDefinitions vs ∪ metKeys t p w (place.pass u.kind) us := by
  rw [metKeys, metKeys, metKeys, ← Set.image_union]
  refine congrArg _ (Set.ext fun name => meets_cons.trans ?_)
  constructor
  · rintro (⟨hclass, -⟩ | ⟨-, -, found', vs', events', hfound', hvs', h⟩ | h)
    · cases hplace.symm.trans hclass
    · cases hfound.symm.trans hfound'
      obtain ⟨rfl, -⟩ := hvs.unique hvs'
      exact .inl h
    · exact .inr h
  · rintro (h | h)
    · exact .inr (.inl ⟨hplace, hkind, found, vs, events, hfound, hvs, h⟩)
    · exact .inr (.inr h)

/-- What is met behind any other token. -/
theorem metKeys_other (hclass : ¬ (place = .behindClass ∧ u.kind = .identifier))
    (himport : ¬ (place = .behindImport ∧ u.kind = .quoted)) :
    metKeys t p w place (u :: us) = metKeys t p w (place.pass u.kind) us := by
  refine congrArg _ (Set.ext fun name => meets_cons.trans ?_)
  constructor
  · rintro (⟨hp, hk, -⟩ | ⟨hp, hk, -⟩ | h)
    · exact absurd ⟨hp, hk⟩ hclass
    · exact absurd ⟨hp, hk⟩ himport
    · exact h
  · exact fun h => .inr (.inr h)

theorem metKeys_nil : metKeys t p w place [] = ∅ := by
  have hnone : {name | Meets t p w place [] name} = ∅ :=
    Set.eq_empty_of_forall_notMem fun _ => not_meets_nil
  rw [metKeys, hnone, Set.image_empty]

/-- What becomes of a run with such a result where a source is read: it comes to the end of the
source, in this place and with these keys, or it has stopped before with some of them. -/
inductive ReadOn (t : FileTree) (p : ScanPreferences) (w : SearchPath) (n : Nat) (place : Place)
    (outer : List Source) (keys : Set String) (r : Except IndexError Unit × Indexer) : Prop
  | through {m : Nat} {y : Indexer} {events : List Diagnostic.Event} : m ≤ n →
      EndsWithin (driveRound t) m (place, y) r → y.scanner.Comes [] outer events →
      Knows p w keys y → ReadOn t p w n place outer keys r
  | stopped {e : IndexError} {keys' : Set String} : r.1 = .error e → keys' ⊆ keys →
      Knows p w keys' r.2 → ReadOn t p w n place outer keys r

theorem ReadOn.mono {r : Except IndexError Unit × Indexer} {m : Nat}
    (h : ReadOn t p w n place outer keys r) (hnm : n ≤ m) :
    ReadOn t p w m place outer keys r := by
  cases h with
  | through hm hrun hcomes hknows => exact .through (hm.trans hnm) hrun hcomes hknows
  | stopped he hsub hknows => exact .stopped he hsub hknows

/-- **A source is read through with what it includes,** if the files it includes end between
definitions: its own tokens decide on the place at its end, and the keys are those of the classes
that are met. -/
theorem drive_along {r : Except IndexError Unit × Indexer}
    (hclosed : ∀ i ∈ place.imports us, ∀ found, w.resolve t i = .ok found →
      ∀ path, Includes t p w found.path path → EndsBetween t p path)
    (hrun : EndsWithin (driveRound t) n (place, x) r) (hx : x.scanner.Comes us outer events)
    (h : Knows p w keys x) :
    ReadOn t p w n (place.along us) outer (keys ∪ metKeys t p w place us) r := by
  induction n using Nat.strongRecOn generalizing place us outer events keys x with
  | ind n ih =>
    cases us with
    | nil =>
      rw [metKeys_nil, Set.union_empty]
      exact .through (Nat.le_refl n) hrun hx h
    | cons u us =>
      obtain ⟨f, now, later, hkind, htext, -, -, hsources, hf, -⟩ := Scanner.next_of_comes hx
      have hnext : x.nextToken = (u.kind, x.nextToken.2) := Prod.ext hkind rfl
      have hk : u.kind ≠ .endOfInput := hx.kind_ne u List.mem_cons_self
      have hz : Knows p w keys x.nextToken.2 := h.congr rfl rfl (Scanner.preferences_next _)
      rw [h.preferences] at hf
      have hrest : ∀ i ∈ (place.pass u.kind).imports us, ∀ found, w.resolve t i = .ok found →
          ∀ path, Includes t p w found.path path → EndsBetween t p path :=
        fun i hi => hclosed i (mem_textsAt_cons.2 (.inr hi))
      obtain ⟨k, hlt, hcases⟩ := endsWithin_cases hrun hnext
      rcases hz.take_cases t place hk htext with ⟨e, y, htake, hy⟩ | ⟨y, htake, hy⟩
      · -- the run stops
        rw [htake] at hcases
        rcases hcases with hstop | ⟨_, _, hgo, -⟩
        · injection hstop with he hlast
          exact .stopped he.symm Set.subset_union_left (hlast ▸ hy)
        · cases hgo
      rw [htake] at hcases
      rcases hcases with hstop | ⟨_, _, hgo, hrun'⟩
      · cases hstop
      cases hgo
      rcases hy with ⟨hplace, hkind', hys, hknows⟩ |
        ⟨hplace, hkind', hknows, found, vs, events', g, hfound, hvs, hg, hys⟩ |
        ⟨hclass, himport, hys, hknows⟩
      · -- a class is declared
        have hcomes : y.scanner.Comes us outer later :=
          Scanner.comes_of_holds (hys.trans hsources) (hknows.preferences.symm ▸ hf)
        rw [metKeys_class hplace hkind', Set.union_insert, ← Set.insert_union]
        exact (ih k hlt hrest hrun' hcomes hknows).mono hlt.le
      · -- a source is read through before this one goes on
        have hi : u.text ∈ place.imports (u :: us) :=
          mem_textsAt_cons.2 (.inl ⟨hplace, hkind', rfl⟩)
        have hends : Place.betweenDefinitions.along vs = .betweenDefinitions :=
          hclosed _ hi found hfound found.path (.self _) vs events' hvs
        have hpass : place.pass u.kind = .betweenDefinitions := by rw [hplace, hkind']; rfl
        have hcomes : y.scanner.Comes vs (f :: outer) events' :=
          Scanner.comes_of_holds (hys.trans (congrArg (g :: ·) hsources))
            (hknows.preferences.symm ▸ hg)
        rw [hpass] at hrest hrun'
        have hinner := ih k hlt (fun j hj found' hfound' path hpath =>
          hclosed _ hi found hfound path (.through hvs hj hfound' hpath)) hrun' hcomes hknows
        rw [hends] at hinner
        rw [metKeys_import hplace hkind' hfound hvs, ← Set.union_assoc, Place.along, hpass]
        cases hinner with
        | @through m y' _ hm hrun'' hcomes' hknows' =>
          have hback := Scanner.comes_of_ended hcomes' (hknows'.preferences.symm ▸ hf)
          exact (ih m (by omega) hrest hrun'' hback hknows').mono (by omega)
        | stopped he hsub hknows' =>
          exact .stopped he (hsub.trans Set.subset_union_left) hknows'
      · -- nothing happens
        have hcomes : y.scanner.Comes us outer later :=
          Scanner.comes_of_holds (hys.trans hsources) (hknows.preferences.symm ▸ hf)
        rw [metKeys_other hclass himport]
        exact (ih k hlt hrest hrun' hcomes hknows).mono hlt.le

/-! ## A whole run -/

/-- **What a run has declared.** Where a file and all that it includes end between definitions, a
run has declared classes that are met there, and if it came to its end, all of them. -/
theorem run_knows (hscans : t.Scans p path us events)
    (hends : ∀ path', Includes t p w path path' → EndsBetween t p path') :
    ∃ keys ⊆ metKeys t p w .betweenDefinitions us,
      Knows p w keys (run t path (new p w .empty)).2 ∧
      ∀ s, (run t path (new p w .empty)).1 = .ok s →
        keys = metKeys t p w .betweenDefinitions us := by
  let start := (new p w .empty).add (.note (startNote path))
  obtain ⟨f, hopen, hf⟩ := openFile_of_scans (x := start) hscans (Nat.zero_lt_succ 14)
  let x : Indexer := { start with scanner := start.scanner.suspend f }
  have hx : Knows p w ∅ x :=
    ⟨Scanner.preferences_suspend _ _, rfl, ⟨∅, ""⟩, SymbolTable.keeps_empty, by simp⟩
  have hcomes : x.scanner.Comes us [] events :=
    Scanner.comes_of_holds (Scanner.sources_suspend _ _) (hx.preferences.symm ▸ hf)
  have hclosed : ∀ i ∈ Place.betweenDefinitions.imports us, ∀ found, w.resolve t i = .ok found →
      ∀ path, Includes t p w found.path path → EndsBetween t p path :=
    fun i hi found hfound path' hpath' => hends path' (.through hscans hi hfound hpath')
  have hdrive := drive_ends (Nat.le_refl (t.largest + 2)) .betweenDefinitions x
  rcases hd : drive t .betweenDefinitions x with ⟨result, z⟩
  rw [hd] at hdrive
  rw [run_of_openFile hopen, hd]
  cases drive_along hclosed hdrive hcomes hx with
  | @through m y _ hm hrest hy hknows =>
    -- nothing is left to read, and the run is over
    rw [Set.empty_union] at hknows
    obtain ⟨hk, -, -⟩ := Scanner.next_of_end hy
    rw [hends path (.self path) us events hscans] at hrest
    obtain ⟨-, -, hstop | ⟨_, _, hgo, -⟩⟩ :=
      endsWithin_cases hrest (show y.nextToken = (.endOfInput, y.nextToken.2) from Prod.ext hk rfl)
    · cases hstop
      exact ⟨_, Set.Subset.rfl, hknows.congr rfl rfl (Scanner.preferences_next _), fun _ _ => rfl⟩
    · cases hgo
  | @stopped e keys he hsub hknows =>
    obtain rfl : result = .error e := he
    rw [Set.empty_union] at hsub
    exact ⟨keys, hsub, hknows, fun s hs => by cases hs⟩

/-- The result of a run, where the loop comes to its end in a given number of rounds. -/
theorem run_of_loop {s : Summary} {names : List String}
    (hopen : (x.add (.note (startNote path))).openFile t path = (.ok (), y))
    (h : (loop (driveRound t) n (.betweenDefinitions, y)).map
        (fun r => (r.1.toOption, r.2.summary, r.2.symbols.table.keys)) = some (some (), s, names)) :
    ∃ z, run t path x = (.ok s, z) ∧ ∀ key, key ∈ z.symbols.names ↔ key ∈ names := by
  obtain ⟨⟨result, z⟩, hloop, hr⟩ := Option.map_eq_some_iff.1 h
  have hdrive := eq_of_endsWithin (drive_eq t) hloop
  dsimp only at hr hdrive
  rw [run_of_openFile hopen, hdrive]
  cases result with
  | error e => cases hr
  | ok =>
    cases hr
    exact ⟨_, rfl, fun key => SymbolTable.mem_names z.symbols key⟩

/-! ## A file by itself -/

/-- Nothing is read from an empty file. -/
theorem eq_nil_of_scans (hread : t.read path = .ok ([], none)) (h : t.Scans p path us events) :
    us = [] := by
  obtain ⟨bytes, failure?, hread', hf⟩ := FileTree.scans_iff.1 h
  cases hread.symm.trans hread'
  cases hf with
  | nil => rfl
  | cons htoken =>
    have hleft := Cursor.remaining_token
      (Scanner.freshCursor p.warnUnrecognized (.ofBytes path [] none))
    rw [htoken] at hleft
    exact absurd hleft (Nat.not_succ_le_zero _)

theorem Includes.exists_scans {path' : String} (h : Includes t p w path path')
    (hus : t.Scans p path' us events) : ∃ vs events', t.Scans p path vs events' := by
  cases h with
  | self => exact ⟨us, events, hus⟩
  | through hvs => exact ⟨_, _, hvs⟩

/-- What is met in a file is met in every file that includes it. -/
theorem Includes.meets {path' : String} {events' : List Diagnostic.Event}
    (h : Includes t p w path path') (hus : t.Scans p path us events)
    (hvs : t.Scans p path' vs events') (hmeets : Meets t p w .betweenDefinitions vs name) :
    Meets t p w .betweenDefinitions us name := by
  induction h generalizing us events with
  | self =>
    obtain ⟨rfl, -⟩ := hus.unique hvs
    exact hmeets
  | through hus' hi hfound hincludes ih =>
    obtain ⟨rfl, -⟩ := hus.unique hus'
    obtain ⟨us', events', hinner⟩ := hincludes.exists_scans hvs
    exact .inside hi hfound hinner (ih hinner hvs)

namespace Alone

variable {t' : FileTree}

theorem scans_iff (h : Alone t p w path t') :
    t'.Scans p path us events ↔ t.Scans p path us events := by
  rw [FileTree.scans_iff, FileTree.scans_iff, h.read]

/-- What a file by itself includes ends between definitions, if the file does. -/
theorem endsBetween (h : Alone t p w path t') (hends : EndsBetween t p path) {path' : String}
    (hincludes : Includes t' p w path path') : EndsBetween t' p path' := by
  cases hincludes with
  | self => exact fun us events hus => hends us events (h.scans_iff.1 hus)
  | through hus hi hfound hinner =>
    obtain ⟨found, hfound', hread⟩ := h.imports _ _ (h.scans_iff.1 hus) _ hi
    cases hfound.symm.trans hfound'
    cases hinner with
    | self =>
      intro vs events hvs
      rw [eq_nil_of_scans hread hvs]
      rfl
    | through hvs hj =>
      rw [eq_nil_of_scans hread hvs] at hj
      cases hj

/-- The classes met in a file by itself are its own. -/
theorem mem_classes (h : Alone t p w path t') (hus : t.Scans p path us events)
    (hmeets : Meets t' p w .betweenDefinitions us name) :
    name ∈ Place.betweenDefinitions.classes us := by
  cases hmeets with
  | own h => exact h
  | inside hi hfound hvs hinner =>
    obtain ⟨found, hfound', hread⟩ := h.imports _ _ hus _ hi
    cases hfound.symm.trans hfound'
    rw [eq_nil_of_scans hread hvs] at hinner
    exact absurd hinner not_meets_nil

end Alone

/-- **No file hides what another declares,** if every file ends between definitions: a run that
comes to its end has declared each class that a file it includes declares by itself. -/
theorem run_keeps_included {t t' : FileTree} {s : Summary} {path main : String}
    (hrun : run t main (new p w .empty) = (.ok s, y))
    (hends : ∀ path, Includes t p w main path → EndsBetween t p path)
    (hpath : Includes t p w main path) (halone : Alone t p w path t') :
    ∀ key ∈ (run t' path (new p w .empty)).2.symbols.names, key ∈ y.symbols.names := by
  intro key hkey
  cases hread : t'.read path with
  | error e =>
    -- a file that cannot be opened declares nothing
    have hroom : ¬ maxDepth ≤ ((new p w .empty).add (.note (startNote path))).scanner.depth :=
      Nat.not_succ_le_zero 14
    have hrefused : (run t' path (new p w .empty)).2.symbols = .empty := by
      rw [run, openFile, Scanner.openFile, if_neg hroom, hread]
      rfl
    rw [hrefused, SymbolTable.keeps_empty.mem_names] at hkey
    exact absurd hkey Finmap.notMem_empty
  | ok contents =>
    obtain ⟨us, events, hf⟩ :=
      Source.exists_holds p.warnUnrecognized (.ofBytes path contents.1 contents.2)
    have hus' : t'.Scans p path us events := FileTree.scans_iff.2 ⟨_, _, hread, hf⟩
    have hus : t.Scans p path us events := halone.scans_iff.1 hus'
    obtain ⟨vs, events', hvs⟩ := hpath.exists_scans hus
    obtain ⟨keys, -, hknows, hall⟩ := run_knows hvs hends
    obtain ⟨keys', hsub, hknows', -⟩ :=
      run_knows hus' fun _ => halone.endsBetween (hends path hpath)
    rw [hrun] at hknows hall
    rw [hall s rfl] at hknows
    obtain ⟨name, hmeets, rfl⟩ := hsub ((hknows'.mem_names key).1 hkey)
    exact (hknows.mem_names _).2
      ⟨name, hpath.meets hvs hus (.own (halone.mem_classes hus hmeets)), rfl⟩

/-- A class of a file and one of the file that includes it. -/
theorem run_keeps_included_both :
    let main := Text.utf8 "import \"a\"\nclass B \x7b \x7d\n"
    let t : FileTree := ⟨[["w"]], [(["a.g", "w"], Text.utf8 "class A;\n"), (["main.g"], main)]⟩
    let t' : FileTree := ⟨[["w"]], [(["a.g", "w"], []), (["main.g"], main)]⟩
    let w : SearchPath := ⟨["w"], []⟩
    ∃ y, run t "main.g" (new default w .empty) = (.ok ⟨0, 0, 9, 2, 2⟩, y) ∧
      (∀ path, Includes t default w "main.g" path → EndsBetween t default path) ∧
      Includes t default w "main.g" "main.g" ∧ Alone t default w "main.g" t' ∧
      ∀ key ∈ (run t' "main.g" (new default w .empty)).2.symbols.names, key ∈ y.symbols.names := by
  intro main t t' w
  let x : Indexer := new default w .empty
  let start (t : FileTree) := ((x.add (.note (startNote "main.g"))).openFile t "main.g").2
  let scanned (path : String) := ((Scanner.new default .empty).openFile t path).2.scan.1
  have hmain : t.Scans default "main.g" (scanned "main.g") _ := ⟨_, rfl, rfl, rfl⟩
  have ha : t.Scans default "w/a.g" (scanned "w/a.g") _ := ⟨_, rfl, rfl, rfl⟩
  obtain ⟨himports, hmainEnds, hnone, haEnds, hfound, hfound', hread, hloop⟩ :
      Place.betweenDefinitions.imports (scanned "main.g") = ["a"] ∧
      Place.betweenDefinitions.along (scanned "main.g") = .betweenDefinitions ∧
      Place.betweenDefinitions.imports (scanned "w/a.g") = [] ∧
      Place.betweenDefinitions.along (scanned "w/a.g") = .betweenDefinitions ∧
      w.resolve t "a" = .ok ⟨"w/a.g", false⟩ ∧ w.resolve t' "a" = .ok ⟨"w/a.g", false⟩ ∧
      t'.read "w/a.g" = .ok ([], none) ∧
      (loop (driveRound t) 10 (.betweenDefinitions, start t)).map
        (fun r => (r.1.toOption, r.2.summary, r.2.symbols.table.keys))
          = some (some (), ⟨0, 0, 9, 2, 2⟩, ["$B", "$A"]) := by decide +kernel
  have hopen : (x.add (.note (startNote "main.g"))).openFile t "main.g" = (.ok (), start t) := rfl
  obtain ⟨y, hrun, -⟩ := run_of_loop hopen hloop
  have hends : ∀ path, Includes t default w "main.g" path → EndsBetween t default path := by
    intro path hpath us events hus
    cases hpath with
    | self => rw [(hus.unique hmain).1, hmainEnds]
    | through hvs hi hresolve hinner =>
      rw [(hvs.unique hmain).1, himports, List.mem_singleton] at hi
      rw [hi, hfound] at hresolve
      cases hresolve
      cases hinner with
      | self => rw [(hus.unique ha).1, haEnds]
      | through hvs hi =>
        rw [(hvs.unique ha).1, hnone] at hi
        cases hi
  have halone : Alone t default w "main.g" t' := by
    refine ⟨rfl, fun us events hus i hi => ⟨⟨"w/a.g", false⟩, ?_, hread⟩⟩
    rw [(hus.unique hmain).1, himports, List.mem_singleton] at hi
    rw [hi, hfound']
  exact ⟨y, hrun, hends, .self _, halone, run_keeps_included hrun hends (.self _) halone⟩

/-- **A head that is left open at the end of a file hides the class behind the import,** and no
fault is recorded. -/
theorem open_head_hides_class :
    let main := Text.utf8 "import \"a\"\nclass B \x7b \x7d\n"
    let t : FileTree := ⟨[["w"]], [(["a.g", "w"], Text.utf8 "class A\n"), (["main.g"], main)]⟩
    let t' : FileTree := ⟨[["w"]], [(["a.g", "w"], []), (["main.g"], main)]⟩
    let w : SearchPath := ⟨["w"], []⟩
    Includes t default w "main.g" "main.g" ∧ Alone t default w "main.g" t' ∧
      ∃ y, run t "main.g" (new default w .empty) = (.ok ⟨0, 0, 8, 1, 2⟩, y) ∧
        "$B" ∉ y.symbols.names ∧
        "$B" ∈ (run t' "main.g" (new default w .empty)).2.symbols.names := by
  intro main t t' w
  let x : Indexer := new default w .empty
  let start (t : FileTree) := ((x.add (.note (startNote "main.g"))).openFile t "main.g").2
  let scanned := ((Scanner.new default .empty).openFile t "main.g").2.scan.1
  have hmain : t.Scans default "main.g" scanned _ := ⟨_, rfl, rfl, rfl⟩
  obtain ⟨himports, hfound, hread, hloop, hloop'⟩ :
      Place.betweenDefinitions.imports scanned = ["a"] ∧
      w.resolve t' "a" = .ok ⟨"w/a.g", false⟩ ∧ t'.read "w/a.g" = .ok ([], none) ∧
      (loop (driveRound t) 9 (.betweenDefinitions, start t)).map
        (fun r => (r.1.toOption, r.2.summary, r.2.symbols.table.keys))
          = some (some (), ⟨0, 0, 8, 1, 2⟩, ["$A"]) ∧
      (loop (driveRound t') 7 (.betweenDefinitions, start t')).map
        (fun r => (r.1.toOption, r.2.summary, r.2.symbols.table.keys))
          = some (some (), ⟨0, 0, 6, 1, 2⟩, ["$B"]) := by decide +kernel
  have hopen : (x.add (.note (startNote "main.g"))).openFile t "main.g" = (.ok (), start t) := rfl
  have hopen' : (x.add (.note (startNote "main.g"))).openFile t' "main.g" = (.ok (), start t') :=
    rfl
  obtain ⟨y, hrun, hnames⟩ := run_of_loop hopen hloop
  obtain ⟨y', hrun', hnames'⟩ := run_of_loop hopen' hloop'
  refine ⟨.self _, ⟨rfl, fun us events hus i hi => ⟨⟨"w/a.g", false⟩, ?_, hread⟩⟩, y, hrun, ?_, ?_⟩
  · rw [(hus.unique hmain).1, himports, List.mem_singleton] at hi
    rw [hi, hfound]
  · rw [hnames]; simp
  · rw [hrun', hnames']; simp

end Indexer
end ClassIndex
