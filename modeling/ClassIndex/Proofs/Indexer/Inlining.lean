/-
# Listings inline their imports

A listing is one loop over the tokens of all sources, and it knows of the token before only whether
it was the word `import`. Yet what it writes is a recursive matter: the tokens of the file, each at
its own place, and behind each string that an import names the same for the file that it leads to
(`Inlined`). The two agree if no file ends with the word `import` (`dumpTokens_inlines`).

| in the row of a file | in the listing |
| --- | --- |
| a string directly behind `import` | the string, then the listing of the file that it leads to |
| any other token | the token |

Each token has a line of its own, which says where the token starts, what it is, and its text where
the kind leaves that open (`Token.Listed.shown_eq`).
-/

import ClassIndex.Indexer.Listing
import ClassIndex.Proofs.FileTree
import ClassIndex.Proofs.Indexer.Effect
import ClassIndex.Proofs.Scanner.Listing

namespace ClassIndex

open Diagnostic (Journal)
open Token (Listed)

/-- A file by itself is this row of tokens. -/
def FileTree.Lists (t : FileTree) (p : ScanPreferences) (path : String) (ls : List Listed) : Prop :=
  ∃ s, (Scanner.new p .empty).openFile t path = (.ok (), s) ∧ s.listing = ls

/-! ## Lines -/

theorem Token.Kind.hasText_iff {k : Token.Kind} : k.hasText = true ↔
    k ∈ [.identifier, .quoted, .wholeNumber, .hexNumber, .octalNumber, .floatNumber] := by
  cases k <;> decide

/-- **What the line of a token reads:** where the token starts, its kind, and its text where the
kind leaves that open. -/
theorem Token.Listed.shown_eq (l : Listed) :
    l.shown = ": ".intercalate [l.file, toString l.line, toString l.column, "token",
      l.kind.name ++ if l.kind ∈ [.identifier, .quoted, .wholeNumber, .hexNumber, .octalNumber,
        .floatNumber] then " '" ++ l.text ++ "'" else ""] := by
  have htoken : ": token: ".toList = ": ".toList ++ ("token".toList ++ ": ".toList) := rfl
  rw [← String.toList_inj]
  simp only [shown, Token.Kind.hasText_iff, String.toList_intercalate, String.toList_append, htoken,
    List.map_cons, List.map_nil, List.intercalate, List.intersperse, List.flatten_cons,
    List.flatten_nil, List.append_assoc, List.append_nil]

namespace Indexer

/-- The texts of the strings that stand directly behind the word `import`; the row itself may stand
behind one. -/
def followed : Bool → List Listed → List String
  | _, [] => []
  | afterImport, l :: ls =>
    (if afterImport && l.kind = .quoted then [l.text] else [])
      ++ followed (l.kind == .importWord) ls

/-- Whether what stands behind a row of tokens stands directly behind the word `import`. -/
def behind (afterImport : Bool) (ls : List Listed) : Bool :=
  (ls.getLast?.map (·.kind == .importWord)).getD afterImport

/-- A row of tokens with the files that its imports lead to in place. -/
inductive Inlined (t : FileTree) (p : ScanPreferences) (w : SearchPath) :
    Bool → List Listed → List Listed → Prop
  | nil (afterImport : Bool) : Inlined t p w afterImport [] []
  | token {afterImport : Bool} {l : Listed} {ls out : List Listed} :
      (afterImport && l.kind = .quoted) = false → Inlined t p w (l.kind == .importWord) ls out →
      Inlined t p w afterImport (l :: ls) (l :: out)
  | follow {l : Listed} {ls inner out out' : List Listed} {found : FoundImport} :
      l.kind = .quoted → w.resolve t l.text = .ok found → t.Lists p found.path inner →
      Inlined t p w false inner out → Inlined t p w false ls out' →
      Inlined t p w true (l :: ls) (l :: (out ++ out'))

/-- A file leads to another through so many imports. -/
inductive Leads (t : FileTree) (p : ScanPreferences) (w : SearchPath) :
    Nat → String → String → Prop
  | self (path : String) : Leads t p w 0 path path
  | through {n : Nat} {path path' name : String} {ls : List Listed} {found : FoundImport} :
      t.Lists p path ls → name ∈ followed false ls → w.resolve t name = .ok found →
      Leads t p w n found.path path' → Leads t p w (n + 1) path path'

/-- The imports of a file lead to files, and the file does not end with the word `import`. -/
structure Followable (t : FileTree) (p : ScanPreferences) (w : SearchPath) (path : String) :
    Prop where
  resolves : ∀ ls, t.Lists p path ls → ∀ name ∈ followed false ls,
    ∃ found, w.resolve t name = .ok found
  closed : ∀ ls, t.Lists p path ls → ∀ l ∈ ls.getLast?, l.kind ≠ .importWord

/-- Only followable files are met from a file on, in fewer than so many steps. -/
def Tame (t : FileTree) (p : ScanPreferences) (w : SearchPath) : Nat → String → Prop
  | 0, _ => False
  | n + 1, path => ∀ ls, t.Lists p path ls → behind false ls = false ∧
      ∀ name ∈ followed false ls, ∃ found, w.resolve t name = .ok found ∧ Tame t p w n found.path

/-- The lines of listed tokens. -/
def lines (ls : List Listed) : List UInt8 := ls.flatMap fun l => Text.utf8 (l.shown ++ "\n")

variable {t : FileTree} {p : ScanPreferences} {w : SearchPath} {path name : String}
  {l : Listed} {ls ls' out out' : List Listed} {afterImport : Bool} {found : FoundImport}
  {outer : List Source} {x y z : Indexer} {sink : Sink} {n : Nat}

/-! ## Files -/

theorem lists_iff : t.Lists p path ls ↔ ∃ bytes failure?, t.read path = .ok (bytes, failure?) ∧
    (Source.ofBytes path bytes failure?).Lists p.warnUnrecognized ls := by
  have hroom : ¬ maxDepth ≤ (Scanner.new p .empty).depth := Nat.not_succ_le_zero 14
  have hlisting {f : Source} {ls : List Listed} (hf : f.Lists p.warnUnrecognized ls) :
      ((Scanner.new p .empty).suspend f).listing = ls :=
    Scanner.listing_of_lists (Scanner.sources_suspend _ f)
      (by rw [Scanner.preferences_suspend]; exact hf)
  unfold FileTree.Lists Scanner.openFile
  rw [if_neg hroom]
  constructor
  · rintro ⟨s, hopen, rfl⟩
    split at hopen
    · rename_i bytes failure? hread
      cases hopen
      obtain ⟨ls, hf⟩ :=
        Source.exists_lists p.warnUnrecognized (.ofBytes path bytes failure?)
      exact ⟨bytes, failure?, hread, by rwa [hlisting hf]⟩
    · cases hopen
  · rintro ⟨bytes, failure?, hread, hf⟩
    rw [hread]
    exact ⟨_, rfl, hlisting hf⟩

theorem lists_unique (h : t.Lists p path ls) (h' : t.Lists p path ls') : ls = ls' := by
  obtain ⟨s, hs, rfl⟩ := h
  obtain ⟨s', hs', rfl⟩ := h'
  cases hs.symm.trans hs'
  rfl

/-- A file that an import leads to can be read. -/
theorem read_of_resolve (h : w.resolve t name = .ok found) :
    ∃ bytes, t.read found.path = .ok (bytes, none) :=
  FileTree.read_of_isFile (List.find?_some (SearchPath.find?_of_find h).1)

/-- **What is inlined is determined** by the row of the file. -/
theorem Inlined.unique (h : Inlined t p w afterImport ls out) (h' : Inlined t p w afterImport ls out') :
    out = out' := by
  induction h generalizing out' with
  | nil => cases h'; rfl
  | token hplain _ ih =>
    cases h' with
    | token _ hrest => rw [ih hrest]
    | follow hkind => simp [hkind] at hplain
  | follow hkind hfound hlists _ _ ih ih' =>
    cases h' with
    | token hplain => simp [hkind] at hplain
    | follow _ hfound' hlists' hinner hrest =>
      cases hfound.symm.trans hfound'
      cases lists_unique hlists hlists'
      rw [ih hinner, ih' hrest]

theorem tame_of_leads (h : ∀ k path', Leads t p w k path path' → k < n ∧ Followable t p w path') :
    Tame t p w n path := by
  induction n generalizing path with
  | zero => exact absurd (h 0 path (.self path)).1 (Nat.not_lt_zero 0)
  | succ n ih =>
    intro ls hls
    obtain ⟨-, hresolves, hclosed⟩ := h 0 path (.self path)
    refine ⟨?_, fun name hname => ?_⟩
    · have hlast := hclosed ls hls
      unfold behind
      cases hl : ls.getLast? with
      | none => rfl
      | some l => simpa [hl] using hlast l hl
    · obtain ⟨found, hfound⟩ := hresolves ls hls name hname
      refine ⟨found, hfound, ih fun k path' hleads => ?_⟩
      obtain ⟨hlt, hfollowable⟩ := h (k + 1) path' (.through hls hname hfound hleads)
      exact ⟨Nat.lt_of_succ_lt_succ hlt, hfollowable⟩

/-! ## One token -/

/-- The tokens of a row come next, from a source that lies on these others. Sources opened above it
may lie before it, but they have ended. -/
structure Reads (p : ScanPreferences) (w : SearchPath) (ls : List Listed) (outer : List Source)
    (x : Indexer) : Prop where
  preferences : x.scanner.preferences = p
  searchPath : x.searchPath = w
  sources : ∃ closed f, x.sources = closed ++ f :: outer ∧
    (∀ e ∈ closed, e.Lists p.warnUnrecognized []) ∧ f.Lists p.warnUnrecognized ls

/-- From one index to another the lines of these tokens are written, and as many tokens counted. -/
structure Writes (out : List Listed) (x y : Indexer) : Prop where
  output : y.journal.output = x.journal.output ++ lines out
  tokens : y.scanner.metrics.tokens = x.scanner.metrics.tokens + out.length

theorem Writes.trans (h : Writes out x y) (h' : Writes out' y z) : Writes (out ++ out') x z where
  output := by rw [h'.output, h.output, lines, lines, lines, List.flatMap_append, List.append_assoc]
  tokens := by rw [h'.tokens, h.tokens, List.length_append, Nat.add_assoc]

/-- Where a source has ended, what is read is what comes from the source around it. -/
theorem Reads.of_ended {f : Source} (h : Reads p w [] (f :: outer) x)
    (hf : f.Lists p.warnUnrecognized ls) : Reads p w ls outer x := by
  obtain ⟨closed, e, hsources, hclosed, he⟩ := h.sources
  refine ⟨h.preferences, h.searchPath, closed ++ [e], f, ?_, ?_, hf⟩
  · rw [hsources, List.append_assoc]
    rfl
  · exact List.forall_mem_append.2 ⟨hclosed, List.forall_mem_singleton.2 he⟩

/-- The index after a token was read and its line written. -/
def listedAs (l : Listed) (x : Indexer) : Indexer :=
  x.nextToken.2.add (.output (Text.utf8 (l.shown ++ "\n")))

/-- An output without a limit takes every line. -/
theorem writeLine_unlimited (hsink : sink.limit? = none) (x : Indexer) (line : String) :
    ∃ sink' : Sink, sink'.limit? = none ∧
      x.writeLine sink line = (.ok sink', x.add (.output (Text.utf8 (line ++ "\n")))) := by
  have hfits : sink.fitting (Text.utf8 (line ++ "\n")) = Text.utf8 (line ++ "\n") := by
    rw [Sink.fitting, hsink]
  refine ⟨⟨sink.limit?, sink.written + (Text.utf8 (line ++ "\n")).length⟩, hsink, ?_⟩
  simp only [writeLine, hfits, if_neg (Nat.lt_irrefl _)]

/-- To read a token and write its line is to count it once. -/
theorem writes_listedAs (hne : x.nextToken.1 ≠ .endOfInput) (l : Listed) :
    Writes [l] x (x.listedAs l) where
  output := by
    have houtput := Scanner.output_next x.scanner
    show (x.scanner.next.2.journal.add _).output = x.scanner.journal.output ++ _
    rw [Journal.output_add, houtput, lines, List.flatMap_singleton]
    rfl
  tokens := by
    have hcount := Scanner.tokens_countToken x.scanner.metrics hne
    show x.scanner.next.2.metrics.tokens = _
    rw [Scanner.metrics_next]
    exact hcount

/-- The next token of a row is read from its source, which is left innermost. -/
theorem Reads.listedAs (h : Reads p w (l :: ls) outer x) :
    ∃ f, x.nextToken.1 = l.kind ∧ l.kind ≠ .endOfInput ∧ x.nextToken.2.listed l.kind = l ∧
      (x.listedAs l).sources = f :: outer ∧ f.Lists p.warnUnrecognized ls ∧
      (x.listedAs l).scanner.preferences = p ∧ (x.listedAs l).searchPath = w ∧
      Writes [l] x (x.listedAs l) := by
  obtain ⟨closed, f, hsources, hclosed, hf⟩ := h.sources
  have hpreferences := h.preferences
  subst hpreferences
  obtain ⟨g, hkind, hlisted, hleft, hg⟩ := Scanner.next_of_lists hsources hclosed hf
  have hne := Scanner.kind_ne_of_lists hf l List.mem_cons_self
  exact ⟨g, hkind, hne, hlisted, hleft, hg, Scanner.preferences_next _, h.searchPath,
    writes_listedAs (hkind.trans_ne hne) l⟩

theorem listTokens_of_goOn {after' : Bool} {sink' : Sink}
    (h : listNext t afterImport sink x = .goOn after' sink' y) :
    listTokens t afterImport sink x = listTokens t after' sink' y := by
  rw [listTokens]
  split
  · rename_i heq
    cases h.symm.trans heq
    rfl
  · rename_i heq
    cases h.symm.trans heq

theorem listTokens_of_stop {result : Except IndexError Unit}
    (h : listNext t afterImport sink x = .stop result y) :
    listTokens t afterImport sink x = (result, y) := by
  rw [listTokens]
  split
  · rename_i heq
    cases h.symm.trans heq
  · rename_i heq
    cases h.symm.trans heq
    rfl

/-- A token of a row is listed, and then the file that it names is opened. -/
theorem listTokens_cons (h : Reads p w (l :: ls) outer x) (hsink : sink.limit? = none)
    (hopen : followListed t afterImport l.kind (x.listedAs l) = (.ok (), y)) :
    ∃ sink', sink'.limit? = none ∧
      listTokens t afterImport sink x = listTokens t (l.kind == .importWord) sink' y := by
  obtain ⟨f, hkind, hne, hlisted, -⟩ := h.listedAs
  obtain ⟨sink', hsink', hwrite⟩ := writeLine_unlimited hsink x.nextToken.2 l.shown
  refine ⟨sink', hsink', listTokens_of_goOn ?_⟩
  have hnext : x.nextToken = (l.kind, x.nextToken.2) := Prod.ext hkind rfl
  rw [listNext, hnext]
  dsimp only
  rw [if_neg hne, listToken, hlisted, hwrite]
  dsimp only
  rw [← listedAs, hopen]

/-- An import whose file can be read opens it. -/
theorem openImport_of_read {bytes : List UInt8} {failure? : Option String}
    (hfound : x.searchPath.resolve t name = .ok found)
    (hread : t.read found.path = .ok (bytes, failure?)) (hroom : x.sources.length < maxDepth) :
    x.openImport t name
      = (.ok (), x.imported name found (.ofBytes found.path bytes failure?)) := by
  have hdepth : ¬ maxDepth ≤ (x.sayFound name found).scanner.depth := Nat.not_le_of_lt hroom
  rw [openImport, hfound]
  simp only [openFile, Scanner.openFile, if_neg hdepth, hread]
  rfl

/-- Opening an import writes nothing and counts no token. -/
theorem writes_imported (x : Indexer) (name : String) (found : FoundImport) (f : Source) :
    Writes [] x (x.imported name found f) where
  output := by
    have hfound : (x.sayFound name found).journal.output = x.journal.output := by
      unfold sayFound
      dsimp only
      split
      · exact (Journal.output_add ..).trans
          ((List.append_nil _).trans (Journal.output_note ..))
      · exact Journal.output_note ..
    rw [lines, List.flatMap_nil, List.append_nil, ← hfound]
    exact Scanner.output_suspend (x.sayFound name found).scanner f
  tokens := by
    have hmetrics := Scanner.metrics_suspend (x.sayFound name found).scanner f
    show ((x.sayFound name found).scanner.suspend f).metrics.tokens = _
    rw [hmetrics]
    rfl

/-- A token that names no file is listed, and the row goes on. -/
theorem listTokens_plain (hx : Reads p w (l :: ls) outer x) (hsink : sink.limit? = none)
    (hplain : (afterImport && l.kind = .quoted) = false) :
    ∃ y sink', sink'.limit? = none ∧
      listTokens t afterImport sink x = listTokens t (l.kind == .importWord) sink' y ∧
      Reads p w ls outer y ∧ Writes [l] x y := by
  obtain ⟨f, -, -, -, hsources, hf, hpreferences, hpath, hwrites⟩ := hx.listedAs
  have hopen : followListed t afterImport l.kind (x.listedAs l) = (.ok (), x.listedAs l) := by
    rw [followListed, hplain]
    rfl
  obtain ⟨sink', hsink', hgo⟩ := listTokens_cons hx hsink hopen
  exact ⟨x.listedAs l, sink', hsink', hgo,
    ⟨hpreferences, hpath, [], f, hsources, List.forall_mem_nil _, hf⟩, hwrites⟩

/-- A string that names a file is listed, and the row of that file comes next, before the rest of
the row. -/
theorem listTokens_import (hx : Reads p w (l :: ls) outer x) (hsink : sink.limit? = none)
    (hquoted : l.kind = .quoted) (hfound : w.resolve t l.text = .ok found)
    (hroom : outer.length + 1 < maxDepth) :
    ∃ inner f y sink', t.Lists p found.path inner ∧ f.Lists p.warnUnrecognized ls ∧
      sink'.limit? = none ∧ listTokens t true sink x = listTokens t false sink' y ∧
      Reads p w inner (f :: outer) y ∧ Writes [l] x y := by
  obtain ⟨f, -, -, hlisted, hsources, hf, hpreferences, hpath, hwrites⟩ := hx.listedAs
  obtain ⟨bytes, hread⟩ := read_of_resolve hfound
  obtain ⟨inner, hinner⟩ :=
    Source.exists_lists p.warnUnrecognized (.ofBytes found.path bytes none)
  have hopen : followListed t true l.kind (x.listedAs l) = (.ok (),
      (x.listedAs l).imported l.text found (.ofBytes found.path bytes none)) := by
    have htext : (x.listedAs l).scanner.lexemeText = l.text := congrArg Listed.text hlisted
    rw [followListed, if_pos (by simp [hquoted]), htext]
    refine openImport_of_read (by rw [hpath]; exact hfound) hread ?_
    rw [hsources, List.length_cons]
    exact hroom
  obtain ⟨sink', hsink', hgo⟩ := listTokens_cons hx hsink hopen
  rw [show (l.kind == .importWord) = false by rw [hquoted]; rfl] at hgo
  have hy : Reads p w inner (f :: outer)
      ((x.listedAs l).imported l.text found (.ofBytes found.path bytes none)) :=
    ⟨(preferences_imported ..).trans hpreferences, hpath, [], _,
      (sources_imported ..).trans (congrArg _ hsources), List.forall_mem_nil _, hinner⟩
  exact ⟨inner, f, _, sink', lists_iff.2 ⟨bytes, none, hread, hinner⟩, hf, hsink', hgo, hy,
    hwrites.trans (writes_imported ..)⟩

/-! ## A whole file -/

theorem behind_cons (afterImport : Bool) (l : Listed) (ls : List Listed) :
    behind afterImport (l :: ls) = behind (l.kind == .importWord) ls := by
  unfold behind
  rw [List.getLast?_cons]
  cases ls.getLast? <;> rfl

/-- **A row of tokens is listed with its imports in place,** if they lead to tame files and there is
room for those. The listing then goes on behind the source of the row. -/
theorem listTokens_row (hd : outer.length + 1 + n ≤ maxDepth)
    (hnames : ∀ name ∈ followed afterImport ls,
      ∃ found, w.resolve t name = .ok found ∧ Tame t p w n found.path)
    (hx : Reads p w ls outer x) (hsink : sink.limit? = none) :
    ∃ out y sink', Inlined t p w afterImport ls out ∧ sink'.limit? = none ∧
      listTokens t afterImport sink x = listTokens t (behind afterImport ls) sink' y ∧
      Reads p w [] outer y ∧ Writes out x y := by
  -- outside on the number of files that may be nested, inside on the row of this one
  induction n using Nat.strongRecOn generalizing afterImport ls outer x sink with
  | ind n ihn =>
    induction ls generalizing afterImport x sink with
    | nil =>
      exact ⟨[], x, sink, .nil afterImport, hsink, rfl, hx, (List.append_nil _).symm, rfl⟩
    | cons l ls ih =>
      have hrest : ∀ name ∈ followed (l.kind == .importWord) ls,
          ∃ found, w.resolve t name = .ok found ∧ Tame t p w n found.path :=
        fun name hname => hnames name (List.mem_append_right _ hname)
      by_cases hfollow : (afterImport && l.kind = .quoted) = true
      · -- the file is opened, listed, and left behind
        obtain ⟨rfl, hquoted⟩ : afterImport = true ∧ l.kind = .quoted := by simpa using hfollow
        have hflag : (l.kind == .importWord) = false := by rw [hquoted]; rfl
        obtain ⟨found, hfound, htame⟩ := hnames l.text
          (List.mem_append_left _ (by rw [if_pos hfollow]; exact List.mem_singleton_self _))
        obtain ⟨m, rfl⟩ : ∃ m, n = m + 1 :=
          Nat.exists_eq_succ_of_ne_zero fun hzero => by rw [hzero] at htame; exact htame
        obtain ⟨inner, f, y, sink₁, hlists, hf, hsink₁, hgo, hy, hwrites⟩ :=
          listTokens_import (t := t) hx hsink hquoted hfound (by omega)
        obtain ⟨hbehind, hdeeper⟩ := htame inner hlists
        obtain ⟨out, z, sink₂, hout, hsink₂, hgo', hz, hwrites'⟩ :=
          ihn m (Nat.lt_succ_self m) (by rw [List.length_cons]; omega) hdeeper hy hsink₁
        rw [hflag] at hrest
        rw [hbehind] at hgo'
        obtain ⟨out', z', sink₃, hout', hsink₃, hgo'', hz', hwrites''⟩ :=
          ih hrest (hz.of_ended hf) hsink₂
        exact ⟨l :: (out ++ out'), z', sink₃, .follow hquoted hfound hlists hout hout', hsink₃,
          by rw [hgo, hgo', hgo'', behind_cons, hflag], hz',
          hwrites.trans (hwrites'.trans hwrites'')⟩
      · have hplain := Bool.eq_false_iff.2 hfollow
        obtain ⟨y, sink₁, hsink₁, hgo, hy, hwrites⟩ := listTokens_plain (t := t) hx hsink hplain
        obtain ⟨out, z, sink₂, hout, hsink₂, hgo', hz, hwrites'⟩ := ih hrest hy hsink₁
        exact ⟨l :: out, z, sink₂, .token hplain hout, hsink₂,
          by rw [hgo, hgo', behind_cons], hz, hwrites.trans hwrites'⟩

/-- To meet the end of the input is to write nothing. -/
theorem writes_end (hkind : x.nextToken.1 = .endOfInput) : Writes [] x x.nextToken.2 where
  output := (Scanner.output_next x.scanner).trans (List.append_nil _).symm
  tokens := by
    show x.scanner.next.2.metrics.tokens = _
    rw [Scanner.metrics_next, show x.scanner.next.1 = .endOfInput from hkind]
    rfl

/-- Where all sources have ended, the listing is over. -/
theorem listTokens_nil (h : Reads p w [] [] x) :
    listTokens t afterImport sink x = (.ok (), x.nextToken.2) ∧ Writes [] x x.nextToken.2 := by
  obtain ⟨closed, f, hsources, hclosed, hf⟩ := h.sources
  have hended : ∀ e ∈ x.scanner.sources,
      e.Lists x.scanner.preferences.warnUnrecognized [] := by
    rw [h.preferences]
    show ∀ e ∈ x.sources, _
    rw [hsources]
    exact List.forall_mem_append.2 ⟨hclosed, List.forall_mem_singleton.2 hf⟩
  have hkind : x.nextToken.1 = .endOfInput := Scanner.next_of_all_ended hended
  refine ⟨listTokens_of_stop ?_, writes_end hkind⟩
  rw [listNext]
  dsimp only
  rw [if_pos hkind]

/-- **A listing is the token list of the file with the listings of its imports in place.** If the
imports of every file that is met lead to files, no such file ends with the word `import`, and at
most fifteen are nested, then the listing succeeds, the lines that it writes are those of the
inlined tokens, which are determined, and as many tokens are counted. -/
theorem dumpTokens_inlines {main : String} (hmain : t.Lists p main ls)
    (hfiles : ∀ k path, Leads t p w k main path → k < maxDepth ∧ Followable t p w path)
    (journal : Journal) :
    ∃ out, (∀ out', Inlined t p w false ls out' ↔ out' = out) ∧
      ∃ s y, dumpTokens t main .unlimited (new p w journal) = (.ok s, y) ∧
        y.journal.output = journal.output ++ lines out ∧ s.tokens = out.length := by
  obtain ⟨bytes, failure?, hread, hf⟩ := lists_iff.1 hmain
  have hroom : ¬ maxDepth ≤ (new p w journal).scanner.depth := Nat.not_succ_le_zero 14
  let x : Indexer := { new p w journal with
    scanner := (new p w journal).scanner.suspend (.ofBytes main bytes failure?) }
  have hopen : (new p w journal).openFile t main = (.ok (), x) := by
    simp only [openFile, Scanner.openFile, if_neg hroom, hread]
    rfl
  have hx : Reads p w ls [] x :=
    ⟨Scanner.preferences_suspend _ _, rfl, [], _, Scanner.sources_suspend _ _,
      List.forall_mem_nil _, hf⟩
  obtain ⟨-, hnames⟩ := tame_of_leads hfiles ls hmain
  obtain ⟨out, y, sink, hout, -, hgo, hy, hwrites⟩ :=
    listTokens_row (Nat.le_refl maxDepth) hnames hx (show Sink.unlimited.limit? = none from rfl)
  obtain ⟨hend, hwrites'⟩ := listTokens_nil (t := t) hy
  have hall := hwrites.trans hwrites'
  rw [List.append_nil] at hall
  have hstart : x.journal.output = journal.output := Scanner.output_suspend _ _
  have hcount : x.scanner.metrics.tokens = 0 := by
    show ((new p w journal).scanner.suspend _).metrics.tokens = 0
    rw [Scanner.metrics_suspend]
    rfl
  refine ⟨out, fun out' => ⟨fun h => h.unique hout, fun h => h ▸ hout⟩,
    y.nextToken.2.summary, y.nextToken.2, ?_, by rw [hall.output, hstart], ?_⟩
  · rw [dumpTokens, hopen]
    dsimp only
    rw [hgo, hend]
  · show y.nextToken.2.scanner.metrics.tokens = _
    rw [hall.tokens, hcount, Nat.zero_add]

theorem dumpTokens_inlines_word :
    let t : FileTree := ⟨[["w"]], [(["a.g", "w"], Text.utf8 "x\n"),
      (["main.g"], Text.utf8 "import \"a\"\ny\n")]⟩
    let w : SearchPath := ⟨["w"], []⟩
    let row : List Listed := [⟨.importWord, "import", "main.g", 1, 1⟩,
      ⟨.quoted, "a", "main.g", 1, 8⟩, ⟨.identifier, "y", "main.g", 2, 1⟩]
    let out : List Listed := [⟨.importWord, "import", "main.g", 1, 1⟩,
      ⟨.quoted, "a", "main.g", 1, 8⟩, ⟨.identifier, "x", "w/a.g", 1, 1⟩,
      ⟨.identifier, "y", "main.g", 2, 1⟩]
    let text := "main.g: 1: 1: token: 'import'\n" ++ "main.g: 1: 8: token: quoted string 'a'\n"
      ++ "w/a.g: 1: 1: token: symbol 'x'\n" ++ "main.g: 2: 1: token: symbol 'y'\n"
    t.Lists default "main.g" row ∧
      (∀ k path, Leads t default w k "main.g" path →
        k < maxDepth ∧ Followable t default w path) ∧
      ∃ s y, dumpTokens t "main.g" .unlimited (new default w .empty) = (.ok s, y) ∧
        y.journal.output = lines out ∧ s.tokens = 4 ∧
        lines out = Text.utf8 text := by
  intro t w row out text
  let listed (path : String) := ((Scanner.new default .empty).openFile t path).2.listing
  obtain ⟨hrow, harow, hfound, hlines⟩ : listed "main.g" = row ∧
      listed "w/a.g" = [⟨.identifier, "x", "w/a.g", 1, 1⟩] ∧
      w.resolve t "a" = .ok ⟨"w/a.g", false⟩ ∧
      lines out = Text.utf8 text := by decide +kernel
  have hmain : t.Lists default "main.g" row := ⟨_, rfl, hrow⟩
  have ha : t.Lists default "w/a.g" [⟨.identifier, "x", "w/a.g", 1, 1⟩] := ⟨_, rfl, harow⟩
  have hfollow : Followable t default w "main.g" := by
    refine ⟨fun ls hls name hname => ?_, fun ls hls l hl => ?_⟩
    · rw [lists_unique hls hmain] at hname
      obtain rfl : name = "a" := List.mem_singleton.1 hname
      exact ⟨_, hfound⟩
    · rw [lists_unique hls hmain] at hl
      cases hl
      exact nofun
  have hfollow' : Followable t default w "w/a.g" := by
    refine ⟨fun ls hls name hname => ?_, fun ls hls l hl => ?_⟩
    · rw [lists_unique hls ha] at hname
      cases hname
    · rw [lists_unique hls ha] at hl
      cases hl
      exact nofun
  have hfiles : ∀ k path, Leads t default w k "main.g" path →
      k < maxDepth ∧ Followable t default w path := by
    intro k path hleads
    cases hleads with
    | self => exact ⟨by decide, hfollow⟩
    | through hls hname hresolve hinner =>
      rw [lists_unique hls hmain] at hname
      obtain rfl := List.mem_singleton.1 hname
      cases hfound.symm.trans hresolve
      cases hinner with
      | self => exact ⟨by decide, hfollow'⟩
      | through hls hname =>
        rw [lists_unique hls ha] at hname
        cases hname
  have hinlined : Inlined t default w false row out :=
    .token rfl (.follow rfl hfound ha (.token rfl (.nil _)) (.token rfl (.nil _)))
  obtain ⟨out', hout', s, y, hdump, houtput, htokens⟩ := dumpTokens_inlines hmain hfiles .empty
  obtain rfl := (hout' out).1 hinlined
  exact ⟨hmain, hfiles, s, y, hdump, houtput, htokens, hlines⟩

end Indexer
end ClassIndex
