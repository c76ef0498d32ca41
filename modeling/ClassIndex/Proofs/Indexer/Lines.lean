/-
# The lines of a listing

A listing ends the entry of each token with a line feed, and it shows paths, words and literals as
they are. So its output has as many line feeds as tokens were counted, and those that are shown
besides (`dumpTokens_breaks`):

| part of an entry | its line feeds |
| --- | --- |
| the path of the source | none if no name in the tree has one |
| line, column, kind | none |
| the text of a word or a number | none: the characters are printed |
| the text of a string | those of the string, which an escape may denote |
| the end | one |

A string with such an escape therefore takes several lines (`listed_string_breaks`).
-/

import ClassIndex.Proofs.Cursor.Graphic
import ClassIndex.Proofs.FileTree
import ClassIndex.Proofs.Indexer.Inlining
import ClassIndex.Proofs.Indexer.Located
import ClassIndex.Proofs.Json.Written

namespace ClassIndex

open Token (Listed)

/-! ## The texts of tokens -/

namespace Scanner

theorem outcome_graphic (warns : Bool) (sources : List Source)
    (hend : (outcome warns sources).1.kind ≠ .endOfInput)
    (hquoted : (outcome warns sources).1.kind ≠ .quoted)
    (herror : (outcome warns sources).1.kind ≠ .error) :
    ∀ b ∈ (outcome warns sources).1.lexeme, Byte.isGraphic b = true := by
  induction sources with
  | nil => exact absurd rfl hend
  | cons f outer ih =>
    rcases htoken : (freshCursor warns f).token with ⟨_ | kind, c⟩
    · cases outer with
      | nil => simp only [outcome, htoken, ne_eq, not_true] at hend
      | cons g outer =>
        rw [outcome_cons_of_none htoken (List.cons_ne_nil _ _)] at hend hquoted herror ⊢
        exact ih hend hquoted herror
    · simp only [outcome, htoken] at hquoted herror ⊢
      exact Cursor.graphic_token htoken hquoted herror

/-- A token whose text says more than its kind is printed, unless it is a string. -/
theorem printed_next (s : Scanner) (htext : s.next.1.hasText = true)
    (hquoted : s.next.1 ≠ .quoted) : Text.Printed s.next.2.lexemeText := by
  have hne {kind : Token.Kind} (hkind : kind.hasText = false) : s.next.1 ≠ kind := by
    rintro rfl
    rw [htext] at hkind
    cases hkind
  have hgraphic := outcome_graphic s.preferences.warnUnrecognized s.sources
  rw [← observe_eq] at hgraphic
  exact Text.printed_lossy (hgraphic (hne rfl) hquoted (hne rfl))

end Scanner

/-! ## One entry -/

theorem Text.count_toString (n : Int) : (toString n).toList.count '\n' = 0 := by
  have hdecimal (n : Nat) : (decimal n).count '\n' = 0 :=
    List.count_eq_zero_of_not_mem fun hmem => absurd (isDigit_of_mem_decimal hmem) (by decide)
  rw [← signed_eq_toString]
  cases n with
  | ofNat n => exact hdecimal n
  | negSucc n => rw [signed, List.count_cons_of_ne (by decide), hdecimal]

theorem Token.Kind.count_name (kind : Token.Kind) : kind.name.toList.count '\n' = 0 := by
  cases kind <;> decide

/-- The line feeds of a listed string. -/
def Token.Listed.breaks (l : Listed) : Nat :=
  if l.kind = .quoted then l.text.toList.count '\n' else 0

/-- A listed token has no line feed but those of a string. -/
structure Token.Listed.Plain (l : Listed) : Prop where
  file : '\n' ∉ l.file.toList
  text : l.kind.hasText = true → l.kind ≠ .quoted → '\n' ∉ l.text.toList

theorem Token.Listed.Plain.count_shown {l : Listed} (h : l.Plain) :
    l.shown.toList.count '\n' = l.breaks := by
  have hfile := List.count_eq_zero_of_not_mem h.file
  have hcolon : ": ".toList.count '\n' = 0 := by decide
  have htoken : ": token: ".toList.count '\n' = 0 := by decide
  have hopen : " '".toList.count '\n' = 0 := by decide
  have hclose : "'".toList.count '\n' = 0 := by decide
  have htext : (if l.kind.hasText then " '" ++ l.text ++ "'" else "").toList.count '\n' =
      l.breaks := by
    by_cases hquoted : l.kind = .quoted
    · rw [breaks, if_pos hquoted, hquoted, if_pos (by decide), String.toList_append,
        String.toList_append, List.count_append, List.count_append, hopen, hclose, Nat.zero_add,
        Nat.add_zero]
    · rw [breaks, if_neg hquoted]
      split
      · rename_i hhas
        rw [String.toList_append, String.toList_append, List.count_append, List.count_append, hopen,
          hclose, List.count_eq_zero_of_not_mem (h.text hhas hquoted)]
      · rfl
  simp only [shown, String.toList_append, List.count_append, hfile, hcolon, htoken, htext,
    Text.count_toString, Kind.count_name, Nat.add_zero, Nat.zero_add]

namespace Indexer

variable {t : FileTree} {main : String × List UInt8} {texts : List (String × List UInt8)}
  {name : String} {afterImport after' : Bool} {sink sink' : Sink} {kind : Token.Kind}
  {x y z : Indexer}

/-- Each entry ends with a line feed, and only strings show others. -/
theorem count_lines {ls : List Listed} (h : ∀ l ∈ ls, l.Plain) :
    (lines ls).count 0x0a = ls.length + (ls.map Listed.breaks).sum := by
  induction ls with
  | nil => rfl
  | cons l ls ih =>
    obtain ⟨hl, hls⟩ := List.forall_mem_cons.1 h
    have hentry : (Text.utf8 (l.shown ++ "\n")).count 0x0a = l.breaks + 1 := by
      have hbytes := Text.count_utf8 (m := '\n') (by decide) (l.shown ++ "\n")
      rw [String.toList_append, List.count_append, hl.count_shown] at hbytes
      exact hbytes
    have hrest := ih hls
    rw [lines] at hrest ⊢
    rw [List.flatMap_cons, List.count_append, hentry, hrest, List.length_cons, List.map_cons,
      List.sum_cons]
    omega

/-! ## A listing -/

/-- The tokens that a listing goes on to list. -/
def listedTokens (t : FileTree) (afterImport : Bool) (sink : Sink) (x : Indexer) : List Listed :=
  match _h : listNext t afterImport sink x with
  | .goOn after' sink' y =>
    x.nextToken.2.listed x.nextToken.1 :: listedTokens t after' sink' y
  | .stop _ _ => []
termination_by x.weight (t.largest + 2)
decreasing_by exact listNext_weight (Nat.le_refl _) _h

/-- An output that has taken a line has taken all of it. -/
theorem eq_of_writeLine {line : String} (h : x.writeLine sink line = (.ok sink', y)) :
    y = x.add (.output (Text.utf8 (line ++ "\n"))) := by
  rw [writeLine] at h
  split at h
  · cases h
  · rename_i hfits
    cases h
    congr 2
    unfold Sink.fitting at hfits ⊢
    split
    · rfl
    · rename_i limit hlimit
      rw [hlimit] at hfits
      rw [List.take_of_length_le]
      rw [List.length_take] at hfits
      omega

theorem writes_openImport (h : x.openImport t name = (.ok (), y)) : Writes [] x y := by
  unfold openImport at h
  split at h
  · cases h
  · rename_i found _
    rcases openFile_cases t found.path (x.sayFound name found) with
      ⟨bytes, failure?, -, hopen⟩ | ⟨e, hopen⟩
    · cases hopen.symm.trans h
      exact writes_imported x name found _
    · cases hopen.symm.trans h

theorem writes_followListed (h : followListed t afterImport kind x = (.ok (), y)) :
    Writes [] x y := by
  unfold followListed at h
  split at h
  · exact writes_openImport h
  · cases h
    exact ⟨(List.append_nil _).symm, rfl⟩

/-- A round that goes on lists its token. -/
theorem writes_listNext (h : listNext t afterImport sink x = .goOn after' sink' y) :
    Writes [x.nextToken.2.listed x.nextToken.1] x y := by
  unfold listNext at h
  dsimp only at h
  split at h
  · cases h
  · rename_i hne
    unfold listToken at h
    rcases hwrite : x.nextToken.2.writeLine sink (x.nextToken.2.listed x.nextToken.1).shown with
      ⟨e | left, z⟩
    · rw [hwrite] at h
      cases h
    · rw [hwrite] at h
      dsimp only at h
      rcases hfollow : followListed t afterImport x.nextToken.1 z with ⟨e | _, z'⟩
      all_goals
        rw [hfollow] at h
        cases h
      have hline := writes_listedAs hne (x.nextToken.2.listed x.nextToken.1)
      rw [listedAs, ← eq_of_writeLine hwrite] at hline
      exact hline.trans (writes_followListed hfollow)

/-- A round that ends a listing without an error lists nothing. -/
theorem writes_listNext_stop (h : listNext t afterImport sink x = .stop (.ok ()) y) :
    Writes [] x y := by
  unfold listNext at h
  dsimp only at h
  split at h
  · rename_i hend
    cases h
    exact writes_end hend
  · split at h <;> cases h

/-- **A listing writes the lines of the tokens that it lists,** and counts these tokens. -/
theorem writes_listTokens (h : listTokens t afterImport sink x = (.ok (), y)) :
    Writes (listedTokens t afterImport sink x) x y := by
  fun_induction listedTokens t afterImport sink x with
  | case1 afterImport sink x after' sink' z hnext ih =>
    rw [listTokens_of_goOn hnext] at h
    exact (writes_listNext hnext).trans (ih h)
  | case2 afterImport sink x result z hnext =>
    rw [listTokens_of_stop hnext] at h
    cases h
    exact writes_listNext_stop hnext

/-- A token is listed with the path of a file that was opened, and its text, unless it is that of a
string, has no line feed. -/
theorem plain_of_mem_listedTokens (hnames : ∀ name, t.HasName name → '\n' ∉ name.toList)
    (h : Stacked t main texts x) : ∀ l ∈ listedTokens t afterImport sink x, l.Plain := by
  fun_induction listedTokens t afterImport sink x generalizing texts with
  | case1 afterImport sink x after' sink' z hnext ih =>
    obtain ⟨-, texts', hstacked⟩ := listRound_located h afterImport sink
    rw [hnext] at hstacked
    have hne : x.nextToken.1 ≠ .endOfInput := by
      intro hend
      simp [listNext, hend] at hnext
    obtain ⟨-, texts₁, -, hopen, htoken, -⟩ := nextToken_located h
    obtain ⟨u, hu, line, column, hlocation, -⟩ := htoken hne
    obtain ⟨failure?, hread⟩ := hopen.read u hu
    refine List.forall_mem_cons.2 ⟨⟨?_, fun htext hquoted => ?_⟩, ih hstacked⟩
    · rw [listed, hlocation]
      intro hmem
      obtain ⟨name, hname, hmem⟩ := FileTree.mem_name_of_read hread hmem (by decide) (by decide)
      exact hnames name hname hmem
    · exact (x.scanner.printed_next htext hquoted).not_mem (by decide)
  | case2 => exact List.forall_mem_nil _

/-- Where a new index has opened a file, nothing is listed yet. -/
theorem openFile_new {p : ScanPreferences} {w : SearchPath} {journal : Diagnostic.Journal}
    {path : String} (hopen : (new p w journal).openFile t path = (.ok (), y)) :
    y.journal.output = journal.output ∧ y.scanner.metrics.tokens = 0 := by
  rcases openFile_cases t path (new p w journal) with ⟨bytes, failure?, -, hopen'⟩ | ⟨e, hopen'⟩
  · cases hopen'.symm.trans hopen
    refine ⟨Scanner.output_suspend _ _, ?_⟩
    show ((new p w journal).scanner.suspend _).metrics.tokens = 0
    rw [Scanner.metrics_suspend]
    rfl
  · cases hopen'.symm.trans hopen

/-- **A listing has a line feed for each of its tokens, and those of its strings,** if no name in
the tree has one. Its output are the lines of the tokens that it lists, and as many tokens are
counted; so there are as many line feeds as tokens just if no string that is listed has one. -/
theorem dumpTokens_breaks {p : ScanPreferences} {w : SearchPath} {journal : Diagnostic.Journal}
    {path : String} {s : Summary} (hnames : ∀ name, t.HasName name → '\n' ∉ name.toList)
    (hdump : dumpTokens t path sink (new p w journal) = (.ok s, y)) :
    ∃ start, (new p w journal).openFile t path = (.ok (), start) ∧
      let row := listedTokens t false sink start
      row.length = s.tokens ∧ y.journal.output = journal.output ++ lines row ∧
        (lines row).count 0x0a = s.tokens + (row.map Listed.breaks).sum ∧
        ((lines row).count 0x0a = s.tokens ↔
          ∀ l ∈ row, l.kind = .quoted → '\n' ∉ l.text.toList) := by
  rw [dumpTokens] at hdump
  rcases hopen : (new p w journal).openFile t path with ⟨e | _, start⟩
  all_goals rw [hopen] at hdump
  · cases hdump
  dsimp only at hdump
  rcases hlist : listTokens t false sink start with ⟨e | _, z⟩
  all_goals
    rw [hlist] at hdump
    cases hdump
  have hwrites := writes_listTokens hlist
  obtain ⟨text, failure?, -, hstacked, -⟩ := stacked_of_openFile rfl hopen
  obtain ⟨hnothing, hnone⟩ := openFile_new hopen
  have htokens : (listedTokens t false sink start).length = y.summary.tokens := by
    show _ = y.scanner.metrics.tokens
    rw [hwrites.tokens, hnone, Nat.zero_add]
  have hplain : ∀ l ∈ listedTokens t false sink start, l.Plain :=
    plain_of_mem_listedTokens hnames hstacked
  have hcount := count_lines hplain
  rw [htokens] at hcount
  refine ⟨start, rfl, htokens, by rw [hwrites.output, hnothing], hcount, ?_⟩
  rw [hcount, Nat.add_eq_left, List.sum_eq_zero_iff_forall_eq_nat, List.forall_mem_map]
  refine forall₂_congr fun l _ => ?_
  rw [Listed.breaks]
  split
  · rename_i hquoted
    simp only [hquoted, List.count_eq_zero, forall_const]
  · rename_i hquoted
    simp only [hquoted, false_implies]

/-- A listing that was opened here goes on as its rounds do. -/
theorem dumpTokens_of_loop {n : Nat} {path : String} {s : Summary} {start : Indexer}
    {output : List UInt8} (hopen : x.openFile t path = (.ok (), start))
    (h : (loop (listRound t) n (false, sink, start)).map
        (fun r => (r.1.toOption, r.2.summary, r.2.journal.output)) = some (some (), s, output)) :
    ∃ z, dumpTokens t path sink x = (.ok s, z) ∧ z.journal.output = output := by
  obtain ⟨⟨result, z⟩, hloop, hr⟩ := Option.map_eq_some_iff.1 h
  have hlist := eq_of_endsWithin (listTokens_eq t) hloop
  dsimp only at hr hlist
  rw [dumpTokens, hopen]
  dsimp only
  rw [hlist]
  cases result with
  | error e => cases hr
  | ok =>
    cases hr
    exact ⟨z, rfl, rfl⟩

/-- A listing of two tokens, one of them a string without a line feed, has two lines. -/
theorem dumpTokens_breaks_string :
    let t : FileTree := ⟨[], [(["a.g"], Text.utf8 "x 'y'\n")]⟩
    (∀ name, t.HasName name → '\n' ∉ name.toList) ∧
      ∃ s y start, dumpTokens t "a.g" .unlimited (new default ⟨[], []⟩ .empty) = (.ok s, y) ∧
        y.journal.output = lines (listedTokens t false .unlimited start) ∧
        (lines (listedTokens t false .unlimited start)).count 0x0a = 2 := by
  intro t
  let x : Indexer := new default ⟨[], []⟩ .empty
  let start := (x.openFile t "a.g").2
  have hnames : ∀ name, t.HasName name → '\n' ∉ name.toList := by
    rintro name ⟨names, hmem, hname⟩
    obtain rfl : names = ["a.g"] := by simpa [t] using hmem
    obtain rfl := List.mem_singleton.1 hname
    decide
  have hopen : x.openFile t "a.g" = (.ok (), start) := rfl
  let shown := "a.g: 1: 1: token: symbol 'x'\na.g: 1: 3: token: quoted string 'y'\n"
  obtain ⟨hloop, hcount⟩ : (loop (listRound t) 3 (false, .unlimited, start)).map
      (fun r => (r.1.toOption, r.2.summary, r.2.journal.output)) =
        some (some (), ⟨0, 0, 2, 0, 1⟩, Text.utf8 shown) ∧ (Text.utf8 shown).count 0x0a = 2 := by
    decide +kernel
  obtain ⟨y, hdump, houtput⟩ := dumpTokens_of_loop hopen hloop
  obtain ⟨start', hstart, -, hlines, -⟩ := dumpTokens_breaks hnames hdump
  refine ⟨hnames, _, y, start', hdump, hlines, ?_⟩
  have hrow : lines (listedTokens t false .unlimited start') = _ := hlines.symm.trans houtput
  rw [hrow, hcount]

/-- **A string that denotes a line feed is listed on two lines.** The listing counts one token. -/
theorem listed_string_breaks :
    let t : FileTree := ⟨[["w"]], [(["main.g"], Text.utf8 "\"a\\nb\"\n")]⟩
    (∀ name, t.HasName name → '\n' ∉ name.toList) ∧
      ∃ s y, dumpTokens t "main.g" .unlimited (new default ⟨["w"], []⟩ .empty) = (.ok s, y) ∧
        s.tokens = 1 ∧
        y.journal.output = Text.utf8 "main.g: 1: 1: token: quoted string 'a\nb'\n" ∧
        y.journal.output.count 0x0a = 2 := by
  intro t
  let x : Indexer := new default ⟨["w"], []⟩ .empty
  let start := (x.openFile t "main.g").2
  have hopen : x.openFile t "main.g" = (.ok (), start) := rfl
  let shown := "main.g: 1: 1: token: quoted string 'a\nb'\n"
  obtain ⟨hloop, hcount⟩ : (loop (listRound t) 2 (false, .unlimited, start)).map
      (fun r => (r.1.toOption, r.2.summary, r.2.journal.output)) =
        some (some (), ⟨0, 0, 1, 0, 1⟩, Text.utf8 shown) ∧ (Text.utf8 shown).count 0x0a = 2 := by
    decide +kernel
  obtain ⟨y, hdump, houtput⟩ := dumpTokens_of_loop hopen hloop
  refine ⟨?_, _, y, hdump, rfl, houtput, ?_⟩
  · rintro name ⟨names, hmem, hname⟩
    obtain rfl | rfl : names = ["w"] ∨ names = ["main.g"] := by simpa [t] using hmem
    all_goals
      obtain rfl := List.mem_singleton.1 hname
      decide
  · rw [houtput, hcount]

end Indexer
end ClassIndex
