/-
# Diagnostics have a place

A diagnostic with a position is located in one of three ways: where the scanner is, where the last
token started, or at the name of an import. In each round these are places in the sources that
were open before it (`take_located`). So every position that is recorded points into the text of a
source that the run has opened, with one exception (`located_diagnostics`).

| diagnostic | its file | its position |
| --- | --- | --- |
| fault in a token, misplaced token, import | the open source | in the text of that source |
| refused declaration, file that is not opened | none | none |
| name missing at the end of the input | none | none |
| block that is open at the end of the input | none | the end of the outermost source |
-/

import ClassIndex.Proofs.Indexer.Effect
import ClassIndex.Proofs.Indexer.Place
import ClassIndex.Proofs.Indexer.Termination
import ClassIndex.Proofs.Scanner.Located

namespace ClassIndex

open Diagnostic (Event Journal)

/-- An event that has a position points into one of some texts with names. -/
def Diagnostic.Event.Grounded (texts : String → List UInt8 → Prop) (e : Event) : Prop :=
  e.span = none ∨ ∃ name text, texts name text ∧ e.PointsInto name text

/-- The fault of a block that is open at the end of the input, as it is recorded where the
outermost source has this text. -/
def unclosedBlock (text : List UInt8) : Event :=
  (Fault.unexpected .closeCurly .endOfInput).event
    ⟨Scanner.noSource, (Position.after text).line, (Position.after text).column⟩

namespace Indexer

variable {t : FileTree} {path name : String} {main : String × List UInt8}
  {texts : List (String × List UInt8)} {place place' : Place} {kind : Token.Kind}
  {x y : Indexer}

/-- The open sources stand in the texts that are read from the files of their names, and the
outermost one is this. -/
structure Stacked (t : FileTree) (main : String × List UInt8) (texts : List (String × List UInt8))
    (x : Indexer) : Prop where
  sound : Scanner.Sound texts x.sources
  read : ∀ u ∈ texts, ∃ failure?, t.read u.1 = .ok (u.2, failure?)
  outermost : ∀ u, texts.getLast? = some u → u = main

/-- These events point into these texts. -/
def InTexts (texts : List (String × List UInt8)) : Event → Prop :=
  Event.Grounded fun name text => (name, text) ∈ texts

theorem inTexts_of_unplaced {e : Event} (h : e.span = none) : InTexts texts e := .inl h

theorem inTexts_of_pointsInto {e : Event} (h : ∃ u ∈ texts, e.PointsInto u.1 u.2) :
    InTexts texts e := by
  obtain ⟨u, hu, he⟩ := h
  exact .inr ⟨u.1, u.2, hu, he⟩

/-- What is located at a place in a text, or nowhere, points into the texts or nowhere. -/
theorem inTexts_located {l : Location} (h : (∃ u ∈ texts, l.PointsInto u.1 u.2) ∨ l.span? = none)
    {e : Event} (hspan : e.span = none) (hcontext : e.context = []) :
    InTexts texts (e.located l) := by
  rcases h with ⟨u, hu, hl⟩ | hl
  · exact inTexts_of_pointsInto ⟨u, hu, hl.located hcontext⟩
  · exact inTexts_of_unplaced (span_located hl hspan)

/-! ## Opening -/

/-- A file is opened, or refused with an error without a position. -/
theorem openFile_cases (t : FileTree) (path : String) (x : Indexer) :
    (∃ bytes failure?, t.read path = .ok (bytes, failure?) ∧
      x.openFile t path = (.ok (),
        { x with scanner := x.scanner.suspend (.ofBytes path bytes failure?) })) ∨
      ∃ e : OpenError, x.openFile t path = (.error (.scanner e),
        x.withJournal (x.journal.unplaced e.code e.message)) := by
  unfold openFile Scanner.openFile
  split_ifs
  · exact .inr ⟨_, rfl⟩
  · rcases hread : t.read path with e | ⟨bytes, failure?⟩
    · exact .inr ⟨_, rfl⟩
    · exact .inl ⟨bytes, failure?, rfl, rfl⟩

theorem adds_unplaced (P : Event → Prop) (hP : ∀ e : Event, e.span = none → P e) (j : Journal)
    (code message : String) : j.Adds P (j.unplaced code message) :=
  Journal.adds_add fun _ he => hP _ (Option.mem_some.1 he ▸ rfl)

/-- To tell of an import that was found is to warn at its name at the most. -/
theorem adds_sayFound {P : Event → Prop}
    (hP : ∀ j : Journal, j.Adds P (j.warning redundantExtension x.scanner.tokenLocation
      "do not include the file extension for import names"))
    (name : String) (found : FoundImport) : x.journal.Adds P (x.sayFound name found).journal := by
  have hnote : x.journal.Adds P (x.journal.note (foundNote name found.path)) :=
    Journal.adds_of_eq (Journal.diagnostics_note ..)
  unfold sayFound
  dsimp only
  split
  · exact hnote.trans (hP _)
  · exact hnote

/-- To declare a class is to record a refusal without a place at the most. -/
theorem adds_declareClass {P : Event → Prop} (hP : ∀ (j : Journal) (code message : String),
      j.Adds P (j.unplaced code message))
    (x : Indexer) (name : String) : x.journal.Adds P (x.declareClass name).2.journal := by
  have hdeclare (symbols : SymbolTable) (j : Journal) (s : Symbol) :
      j.Adds P (symbols.declare j s).2.2 := by
    unfold SymbolTable.declare
    dsimp only
    split
    · exact hP ..
    · split
      · exact Journal.adds_of_eq (Journal.diagnostics_note ..)
      · exact hP ..
  have hstep := hdeclare (x.symbols.beginDecoration.addName name) x.journal .newClass
  unfold declareClass
  generalize (x.symbols.beginDecoration.addName name).declare x.journal .newClass = step at hstep ⊢
  obtain ⟨result, symbols, j⟩ := step
  exact hstep

theorem openFile_located (h : Stacked t main texts x) (hne : texts ≠ []) (path : String) :
    x.journal.Adds (InTexts texts) (x.openFile t path).2.journal ∧
      ∃ texts', Stacked t main texts' (x.openFile t path).2 := by
  rcases openFile_cases t path x with ⟨bytes, failure?, hread, hopen⟩ | ⟨e, hopen⟩
  · rw [hopen]
    refine ⟨Journal.adds_of_eq (Scanner.diagnostics_suspend ..), (path, bytes) :: texts, ?_, ?_, ?_⟩
    · show Scanner.Sound _ (x.scanner.suspend _).sources
      rw [Scanner.sources_suspend]
      exact .cons ⟨rfl, Source.stands_ofBytes path bytes failure?⟩ h.sound
    · exact List.forall_mem_cons.2 ⟨⟨failure?, hread⟩, h.read⟩
    · rw [List.getLast?_cons_of_ne_nil hne]
      exact h.outermost
  · rw [hopen]
    exact ⟨adds_unplaced _ (fun _ => inTexts_of_unplaced) _ _ _, texts, h.sound, h.read,
      h.outermost⟩

/-- What is recorded at the name of an import points to it. -/
theorem openImport_located (h : Stacked t main texts x)
    (hname : ∃ u ∈ texts, x.scanner.tokenLocation.PointsInto u.1 u.2) (name : String) :
    x.journal.Adds (InTexts texts) (x.openImport t name).2.journal ∧
      ∃ texts', Stacked t main texts' (x.openImport t name).2 := by
  have hne : texts ≠ [] := fun hnil => by
    obtain ⟨u, hu, -⟩ := hname
    rw [hnil] at hu
    exact List.not_mem_nil hu
  have hreport (j : Journal) (level : Diagnostic.Level) (code message : String) :
      j.Adds (InTexts texts) (j.report level code message (some x.scanner.tokenLocation)) :=
    Journal.adds_add fun _ he => Option.mem_some.1 he ▸ inTexts_located (.inl hname) rfl rfl
  unfold openImport
  split
  · exact ⟨hreport .., texts, h.sound, h.read, h.outermost⟩
  · rename_i found _
    have hfound : Stacked t main texts (x.sayFound name found) := ⟨h.sound, h.read, h.outermost⟩
    obtain ⟨hadds, hstacked⟩ := openFile_located hfound hne found.path
    exact ⟨(adds_sayFound (fun _ => hreport ..) name found).trans hadds, hstacked⟩

/-! ## One token -/

theorem report_located (h : Stacked t main texts x) (f : Fault) :
    x.journal.Adds (InTexts texts) (x.report f).journal :=
  ⟨_, Journal.diagnostics_addDiagnostics .., List.forall_mem_singleton.2
    (inTexts_located h.sound.location rfl rfl)⟩

theorem reportToken_located
    (h : (∃ u ∈ texts, x.scanner.tokenLocation.PointsInto u.1 u.2) ∨
      x.scanner.tokenLocation.span? = none) (f : Fault) :
    x.journal.Adds (InTexts texts) (x.reportToken f).journal :=
  ⟨_, Journal.diagnostics_addDiagnostics .., List.forall_mem_singleton.2
    (inTexts_located h rfl rfl)⟩

/-- A class that cannot be declared is refused without a position. -/
theorem declareClass_located (texts : List (String × List UInt8)) (x : Indexer) (name : String) :
    x.journal.Adds (InTexts texts) (x.declareClass name).2.journal :=
  adds_declareClass (adds_unplaced _ fun _ => inTexts_of_unplaced) x name

/-- The index as a token leaves it. -/
def Course.state : Course → Indexer
  | .goOn _ y => y
  | .stop _ y => y

/-- The index as a listed token leaves it. -/
def ListCourse.state : ListCourse → Indexer
  | .goOn _ _ y => y
  | .stop _ y => y

/-- **What a token leads to records nothing but what points into the open sources.** -/
theorem take_located (h : Stacked t main texts x) (place : Place) (hk : kind ≠ .endOfInput)
    (htoken : ∃ u ∈ texts, x.scanner.tokenLocation.PointsInto u.1 u.2) :
    x.journal.Adds (InTexts texts) (take t place kind x).state.journal ∧
      ∃ texts', Stacked t main texts' (take t place kind x).state := by
  by_cases hclass : place = .behindClass ∧ kind = .identifier
  · obtain ⟨rfl, rfl⟩ := hclass
    have hadds := declareClass_located texts x x.scanner.lexemeText
    have hsources := sources_declareClass x x.scanner.lexemeText
    have hstacked : Stacked t main texts (x.declareClass x.scanner.lexemeText).2 :=
      ⟨by rw [hsources]; exact h.sound, h.read, h.outermost⟩
    rw [take, nameClass, if_pos rfl]
    split
    all_goals
      rename_i hdeclare
      rw [hdeclare] at hadds hstacked
      exact ⟨hadds, texts, hstacked⟩
  by_cases himport : place = .behindImport ∧ kind = .quoted
  · obtain ⟨rfl, rfl⟩ := himport
    have hopen := openImport_located h htoken x.scanner.lexemeText
    rw [take, followImport, if_pos rfl]
    split
    all_goals
      rename_i himport
      rw [himport] at hopen
      exact hopen
  · obtain ⟨y, htake, hy⟩ := take_of_unnamed (t := t) (x := x) hk hclass himport
    rw [htake]
    rcases hy with rfl | ⟨f, -, rfl | rfl⟩
    · exact ⟨Journal.adds_of_eq rfl, texts, h⟩
    · exact ⟨report_located h f, texts, h.sound, h.read, h.outermost⟩
    · exact ⟨reportToken_located (.inl htoken) f, texts, h.sound, h.read, h.outermost⟩

/-- At the end of the input, only a block that is open has a position recorded. -/
theorem take_endOfInput_located (t : FileTree) (place : Place) (h : x.sources = [])
    (htoken : x.scanner.tokenLocation.span? = none ∨ x.scanner.tokenLocation
      = ⟨Scanner.noSource, (Position.after main.2).line, (Position.after main.2).column⟩) :
    x.journal.Adds (fun e => e.span = none ∨ e = unclosedBlock main.2)
        (take t place .endOfInput x).state.journal ∧
      (take t place .endOfInput x).state.sources = [] := by
  have hreport (f : Fault) : x.journal.Adds (fun e => e.span = none ∨ e = unclosedBlock main.2)
      (x.report f).journal := by
    have hlocation : x.scanner.location.span? = none := by
      have hsources : x.scanner.sources = [] := h
      rw [Scanner.location, hsources]
      rfl
    exact ⟨_, Journal.diagnostics_addDiagnostics .., List.forall_mem_singleton.2
      (.inl (span_located hlocation rfl))⟩
  cases place with
  | betweenDefinitions => exact ⟨Journal.adds_of_eq rfl, h⟩
  | behindClass => exact ⟨hreport _, h⟩
  | behindImport => exact ⟨hreport _, h⟩
  | inHead => exact ⟨Journal.adds_of_eq rfl, h⟩
  | inBlock open? =>
    refine ⟨⟨_, Journal.diagnostics_addDiagnostics .., List.forall_mem_singleton.2 ?_⟩, h⟩
    rcases htoken with hnone | hend
    · exact .inl (span_located hnone rfl)
    · right
      rw [hend]
      rfl
  | inMalformed => exact ⟨Journal.adds_of_eq rfl, h⟩

/-! ## A round -/

/-- What a call for a token leaves: the sources still open are stacked, and its token is located in
one of them. At the end of the input none is open. -/
theorem nextToken_located (h : Stacked t main texts x) :
    x.journal.Adds (InTexts texts) x.nextToken.2.journal ∧
      ∃ texts', texts' ⊆ texts ∧ Stacked t main texts' x.nextToken.2 ∧
        (x.nextToken.1 ≠ .endOfInput →
          ∃ u ∈ texts', x.nextToken.2.scanner.tokenLocation.PointsInto u.1 u.2) ∧
        (x.nextToken.1 = .endOfInput → x.nextToken.2.sources = [] ∧
          (x.nextToken.2.scanner.tokenLocation.span? = none ∨
            x.nextToken.2.scanner.tokenLocation
              = ⟨Scanner.noSource, (Position.after main.2).line,
                (Position.after main.2).column⟩)) := by
  obtain ⟨hadds, htoken, hend⟩ := Scanner.Sound.next_located (s := x.scanner) h.sound
  have hsound := h.sound.outcome x.scanner.preferences.warnUnrecognized
  have hsources := Scanner.sources_next x.scanner
  refine ⟨hadds.mono fun _ => inTexts_of_pointsInto,
    texts.drop (texts.length - x.scanner.next.2.depth), List.drop_subset _ _,
    ⟨?_, fun u hu => h.read u (List.mem_of_mem_drop hu), ?_⟩, htoken, fun hk => ⟨?_, ?_⟩⟩
  · show Scanner.Sound _ x.scanner.next.2.sources
    rw [Scanner.depth, hsources]
    exact hsound
  · intro u hu
    rw [List.getLast?_drop] at hu
    split at hu
    · cases hu
    · exact h.outermost u hu
  · rcases Scanner.next_cases x.scanner with ⟨-, -, hnil⟩ | ⟨hne, -⟩
    · exact hnil
    · exact absurd hk hne
  · rcases hend hk with hnone | ⟨u, hu, hlocation⟩
    · exact .inl hnone
    · exact .inr (h.outermost u hu ▸ hlocation)

theorem InTexts.mono {texts' : List (String × List UInt8)} (hsub : texts' ⊆ texts) {e : Event}
    (h : InTexts texts' e) : InTexts texts e :=
  h.imp_right fun ⟨name, text, hmem, he⟩ => ⟨name, text, hsub hmem, he⟩

theorem driveRound_state (t : FileTree) (place : Place) (x : Indexer) :
    (driveRound t (place, x)).elim Prod.snd Prod.snd
      = (take t place x.nextToken.1 x.nextToken.2).state := by
  unfold driveRound
  dsimp only
  split
  all_goals
    rename_i htake
    rw [htake]
    rfl

theorem listRound_state (t : FileTree) (s : Bool × Sink × Indexer) :
    (listRound t s).elim (fun s => s.2.2) Prod.snd = (listNext t s.1 s.2.1 s.2.2).state := by
  unfold listRound
  dsimp only
  split
  all_goals
    rename_i hlist
    rw [hlist]
    rfl

/-- A round of a run records what points into the open sources, or that a block is open at the end
of the input. -/
theorem driveRound_located (h : Stacked t main texts x) (place : Place) :
    x.journal.Adds (fun e => InTexts texts e ∨ e = unclosedBlock main.2)
        (take t place x.nextToken.1 x.nextToken.2).state.journal ∧
      ∃ texts', Stacked t main texts' (take t place x.nextToken.1 x.nextToken.2).state := by
  obtain ⟨hnext, texts', hsub, hstacked, htoken, hend⟩ := nextToken_located h
  have hnext' : x.journal.Adds (fun e => InTexts texts e ∨ e = unclosedBlock main.2)
      x.nextToken.2.journal := hnext.mono fun _ => .inl
  by_cases hk : x.nextToken.1 = .endOfInput
  · obtain ⟨hsources, hlocation⟩ := hend hk
    obtain ⟨htake, hleft⟩ := take_endOfInput_located t place hsources hlocation
    rw [hk]
    refine ⟨hnext'.trans (htake.mono fun e he => he.imp_left inTexts_of_unplaced), [], ?_, nofun,
      nofun⟩
    rw [hleft]
    exact .nil
  · obtain ⟨htake, hleft⟩ := take_located hstacked place hk (htoken hk)
    exact ⟨hnext'.trans (htake.mono fun e he => .inl (he.mono hsub)), hleft⟩

theorem listToken_located (h : Stacked t main texts x) (afterImport : Bool) (sink : Sink)
    (kind : Token.Kind) (htoken : ∃ u ∈ texts, x.scanner.tokenLocation.PointsInto u.1 u.2) :
    x.journal.Adds (InTexts texts) (listToken t afterImport sink kind x).2.journal ∧
      ∃ texts', Stacked t main texts' (listToken t afterImport sink kind x).2 := by
  have hwrite : x.journal.Adds (InTexts texts)
      (x.writeLine sink (x.listed kind).shown).2.journal := Journal.adds_add nofun
  have hwritten : Stacked t main texts (x.writeLine sink (x.listed kind).shown).2 :=
    ⟨h.sound, h.read, h.outermost⟩
  have hfollow : (x.writeLine sink (x.listed kind).shown).2.journal.Adds (InTexts texts)
        (followListed t afterImport kind (x.writeLine sink (x.listed kind).shown).2).2.journal ∧
      ∃ texts', Stacked t main texts'
        (followListed t afterImport kind (x.writeLine sink (x.listed kind).shown).2).2 := by
    unfold followListed
    split
    · exact openImport_located hwritten htoken _
    · exact ⟨Journal.adds_of_eq rfl, texts, hwritten⟩
  unfold listToken
  rcases hline : x.writeLine sink (x.listed kind).shown with ⟨_ | _, y⟩
  all_goals rw [hline] at hwrite hwritten hfollow
  · exact ⟨hwrite, texts, hwritten⟩
  · dsimp only
    rcases hopen : followListed t afterImport kind y with ⟨_ | _, z⟩
    all_goals
      rw [hopen] at hfollow
      exact ⟨hwrite.trans hfollow.1, hfollow.2⟩

/-- A round of a listing records what points into the open sources. -/
theorem listRound_located (h : Stacked t main texts x) (afterImport : Bool) (sink : Sink) :
    x.journal.Adds (InTexts texts) (listNext t afterImport sink x).state.journal ∧
      ∃ texts', Stacked t main texts' (listNext t afterImport sink x).state := by
  obtain ⟨hnext, texts', hsub, hstacked, htoken, -⟩ := nextToken_located h
  rcases hx : x.nextToken with ⟨kind, y⟩
  rw [hx] at hnext hstacked htoken
  by_cases hk : kind = .endOfInput
  · simp only [listNext, hx, if_pos hk]
    exact ⟨hnext, texts', hstacked⟩
  · have hlist := listToken_located hstacked afterImport sink kind (htoken hk)
    simp only [listNext, hx, if_neg hk]
    rcases hlisted : listToken t afterImport sink kind y with ⟨_ | _, z⟩
    all_goals
      rw [hlisted] at hlist
      exact ⟨hnext.trans (hlist.1.mono fun _ => .mono hsub), hlist.2⟩

/-! ## Whole calls -/

/-- In a loop a source of this name is open, and this text is read from its file. -/
def Opens {σ ρ : Type} (t : FileTree) (round : σ → σ ⊕ ρ) (index : σ → Indexer) (s : σ)
    (name : String) (text : List UInt8) : Prop :=
  (∃ s', Visits round s s' ∧ ∃ f ∈ (index s').sources, f.name = name) ∧
    ∃ failure?, t.read name = .ok (text, failure?)

/-- A run of the file at a path opens a source with a text. -/
def RunOpens (t : FileTree) (path : String) (x : Indexer) (name : String) (text : List UInt8) :
    Prop :=
  ∃ y, (x.add (.note (startNote path))).openFile t path = (.ok (), y) ∧
    Opens t (driveRound t) Prod.snd (.betweenDefinitions, y) name text

/-- A listing of the file at a path opens a source with a text. -/
def DumpOpens (t : FileTree) (path : String) (sink : Sink) (x : Indexer) (name : String)
    (text : List UInt8) : Prop :=
  ∃ y, x.openFile t path = (.ok (), y) ∧
    Opens t (listRound t) (fun s => s.2.2) (false, sink, y) name text

/-- What points into the sources that are open in a round points into those that the loop opens. -/
theorem Stacked.grounded {σ ρ : Type} {round : σ → σ ⊕ ρ} {index : σ → Indexer} {s s' : σ}
    (h : Stacked t main texts (index s')) (hvisits : Visits round s s') {e : Event}
    (he : InTexts texts e) : e.Grounded (Opens t round index s) := by
  refine he.imp_right ?_
  rintro ⟨name, text, hmem, hpoints⟩
  obtain ⟨f, hf, hname⟩ := h.sound.exists_source hmem
  exact ⟨name, text, ⟨⟨s', hvisits, f, hf, hname⟩, h.read _ hmem⟩, hpoints⟩

/-- What the rounds of a loop record points into the sources that it opens. -/
theorem loop_located {σ : Type} {round : σ → σ ⊕ (Except IndexError Unit × Indexer)}
    (index : σ → Indexer) (Q : Event → Prop)
    (hround : ∀ (s : σ) (texts : List (String × List UInt8)), Stacked t main texts (index s) →
      (index s).journal.Adds (fun e => InTexts texts e ∨ Q e)
          ((round s).elim index Prod.snd).journal ∧
        ∃ texts', Stacked t main texts' ((round s).elim index Prod.snd))
    {s : σ} (hs : Stacked t main texts (index s)) {n : Nat} {r : Except IndexError Unit × Indexer}
    (hrun : EndsWithin round n s r) :
    (index s).journal.Adds (fun e => e.Grounded (Opens t round index s) ∨ Q e) r.2.journal := by
  have hstep {p : σ} (hvisits : Visits round s p)
      (hp : (index s).journal.Adds (fun e => e.Grounded (Opens t round index s) ∨ Q e)
          (index p).journal ∧ ∃ texts, Stacked t main texts (index p)) :
      (index s).journal.Adds (fun e => e.Grounded (Opens t round index s) ∨ Q e)
          ((round p).elim index Prod.snd).journal ∧
        ∃ texts, Stacked t main texts ((round p).elim index Prod.snd) := by
    obtain ⟨hadds, texts, hstacked⟩ := hp
    obtain ⟨hadds', hstacked'⟩ := hround p texts hstacked
    exact ⟨hadds.trans (hadds'.mono fun e he => he.imp_left (hstacked.grounded hvisits)), hstacked'⟩
  refine EndsWithin.induct
    (I := fun p => (index s).journal.Adds (fun e => e.Grounded (Opens t round index s) ∨ Q e)
      (index p).journal ∧ ∃ texts, Stacked t main texts (index p))
    (Q := fun r => (index s).journal.Adds (fun e => e.Grounded (Opens t round index s) ∨ Q e)
      r.2.journal) hrun ⟨Journal.adds_of_eq rfl, texts, hs⟩ ?_ ?_
  · intro p q hvisits hp hgo
    have hq := hstep hvisits hp
    rwa [hgo] at hq
  · intro p q hvisits hp hstop
    have hq := hstep hvisits hp
    rw [hstop] at hq
    exact hq.1

/-- A file that is opened first is stacked alone. -/
theorem stacked_of_openFile (hx : x.sources = []) (h : x.openFile t path = (.ok (), y)) :
    ∃ text failure?, t.read path = .ok (text, failure?) ∧ Stacked t (path, text) [(path, text)] y ∧
      y.journal.diagnostics = x.journal.diagnostics := by
  rcases openFile_cases t path x with ⟨text, failure?, hread, hopen⟩ | ⟨e, hopen⟩
  · cases hopen.symm.trans h
    refine ⟨text, failure?, hread, ⟨?_, ?_, ?_⟩, Scanner.diagnostics_suspend ..⟩
    · show Scanner.Sound _ (x.scanner.suspend _).sources
      have hnil : x.scanner.sources = [] := hx
      rw [Scanner.sources_suspend, hnil]
      exact .cons ⟨rfl, Source.stands_ofBytes path text failure?⟩ .nil
    · exact List.forall_mem_singleton.2 ⟨failure?, hread⟩
    · intro u hu
      cases hu
      rfl
  · cases hopen.symm.trans h

/-- A file that is not opened leaves an error without a position. -/
theorem refused_of_openFile {e : IndexError} (h : x.openFile t path = (.error e, y))
    {P : Event → Prop} (hP : ∀ e : Event, e.span = none → P e) :
    x.journal.Adds P y.journal := by
  rcases openFile_cases t path x with ⟨text, failure?, -, hopen⟩ | ⟨e', hopen⟩
  · cases hopen.symm.trans h
  · cases hopen.symm.trans h
    exact adds_unplaced P hP _ _ _

/-- What a run records: its positions point into the sources that it opens, but for a block that is
open at the end of the input. -/
theorem run_located (hx : x.sources = []) (path : String) :
    x.journal.Adds (fun e => e.Grounded (RunOpens t path x) ∨
        ∃ text failure?, t.read path = .ok (text, failure?) ∧ e = unclosedBlock text)
      (run t path x).2.journal := by
  have hnote (x : Indexer) (e : Event) :
      (x.add (.note e)).journal.diagnostics = x.journal.diagnostics := Journal.diagnostics_note ..
  have hends := runEnds (Nat.le_refl (t.largest + 2)) path x
  generalize run t path x = r at hends ⊢
  have hopened {y z : Indexer} {result : Except IndexError Unit} {bound : Nat}
      (hopen : (x.add (.note (startNote path))).openFile t path = (.ok (), y))
      (hrun : EndsWithin (driveRound t) bound (.betweenDefinitions, y) (result, z)) :
      x.journal.Adds (fun e => e.Grounded (RunOpens t path x) ∨
        ∃ text failure?, t.read path = .ok (text, failure?) ∧ e = unclosedBlock text)
        z.journal := by
    obtain ⟨text, failure?, hread, hstacked, hy⟩ :=
      stacked_of_openFile (x := x.add (.note (startNote path))) hx hopen
    have hloop := loop_located Prod.snd (fun e => e = unclosedBlock text)
      (fun s texts h => driveRound_state t s.1 s.2 ▸ driveRound_located h s.1) hstacked hrun
    have hstart : x.journal.Adds (fun e => e.Grounded (RunOpens t path x) ∨
        ∃ text failure?, t.read path = .ok (text, failure?) ∧ e = unclosedBlock text) y.journal :=
      Journal.adds_of_eq (hy.trans (hnote x _))
    refine hstart.trans (hloop.mono fun e he => ?_)
    rcases he with he | he
    · exact .inl (he.imp_right fun ⟨name, text, hopens, hpoints⟩ =>
        ⟨name, text, ⟨y, hopen, hopens⟩, hpoints⟩)
    · exact .inr ⟨text, failure?, hread, he⟩
  cases hends with
  | refused hopen =>
    exact (Journal.adds_of_eq (hnote x _)).trans
      (refused_of_openFile hopen fun e he => .inl (.inl he))
  | stopped hopen hrun => exact hopened hopen hrun
  | finished hopen hrun => exact (hopened hopen hrun).trans (Journal.adds_of_eq (hnote _ _))

/-- What a listing records: its positions point into the sources that it opens. -/
theorem dumpTokens_located (hx : x.sources = []) (path : String) (sink : Sink) :
    x.journal.Adds (Event.Grounded (DumpOpens t path sink x))
      (dumpTokens t path sink x).2.journal := by
  have hends := dumpEnds (Nat.le_refl (t.largest + 2)) path sink x
  generalize dumpTokens t path sink x = r at hends ⊢
  have hopened {y z : Indexer} {result : Except IndexError Unit} {bound : Nat}
      (hopen : x.openFile t path = (.ok (), y))
      (hrun : EndsWithin (listRound t) bound (false, sink, y) (result, z)) :
      x.journal.Adds (Event.Grounded (DumpOpens t path sink x)) z.journal := by
    obtain ⟨text, failure?, hread, hstacked, hy⟩ := stacked_of_openFile hx hopen
    have hloop := loop_located (fun s => s.2.2) (fun _ => False)
      (fun s texts h => by
        rw [listRound_state]
        exact (listRound_located h s.1 s.2.1).imp_left (Journal.Adds.mono · fun _ => .inl))
      hstacked hrun
    refine (Journal.adds_of_eq hy).trans (hloop.mono fun e he => ?_)
    rcases he with he | he
    · exact he.imp_right fun ⟨name, text, hopens, hpoints⟩ =>
        ⟨name, text, ⟨y, hopen, hopens⟩, hpoints⟩
    · exact he.elim
  cases hends with
  | refused hopen => exact refused_of_openFile hopen fun e he => .inl he
  | stopped hopen hrun => exact hopened hopen hrun
  | finished hopen hrun => exact hopened hopen hrun

/-- **Positions point into the sources that are opened,** in all that a run or a listing records,
with one exception: where a block is open at the end of the input, a run names no open file, but
the line and column at which the outermost source has ended. -/
theorem located_diagnostics (t : FileTree) (path : String) (sink : Sink)
    (preferences : ScanPreferences) (searchPath : SearchPath) (journal : Journal) :
    let x := new preferences searchPath journal
    journal.Adds (fun e => e.Grounded (RunOpens t path x) ∨
        ∃ text failure?, t.read path = .ok (text, failure?) ∧ e = unclosedBlock text)
        (run t path x).2.journal ∧
      journal.Adds (Event.Grounded (DumpOpens t path sink x))
        (dumpTokens t path sink x).2.journal := by
  intro x
  have hx : x.sources = [] := rfl
  exact ⟨run_located hx path, dumpTokens_located hx path sink⟩

/-- **A block that is open at the end of the input has a position in no file:** a line and a column
are recorded, but no source that was opened has the name recorded with them. -/
theorem unclosed_block_is_nowhere :
    let main := Text.utf8 "class A \x7b\n"
    let t : FileTree := ⟨[["w"]], [(["main.g"], main)]⟩
    let x : Indexer := new default ⟨["w"], []⟩ .empty
    ∃ e ∈ (run t "main.g" x).2.journal.diagnostics, e.span = some (.single ⟨0, 2, 1⟩) ∧
      e.file? = some "no open file" ∧ ¬ e.Grounded (RunOpens t "main.g" x) := by
  intro main t x
  let start := ((x.add (.note (startNote "main.g"))).openFile t "main.g").2
  have hopen : (x.add (.note (startNote "main.g"))).openFile t "main.g" = (.ok (), start) := rfl
  obtain ⟨hloop, hspan, hfile, hread⟩ :
      (loop (driveRound t) 5 (.betweenDefinitions, start)).map
        (fun r => (r.1.toOption, r.2.journal.diagnostics)) = some (some (), [unclosedBlock main]) ∧
      (unclosedBlock main).span = some (.single ⟨0, 2, 1⟩) ∧
      (unclosedBlock main).file? = some "no open file" ∧
      (t.read "no open file").toOption = none := by decide +kernel
  obtain ⟨⟨result, z⟩, hends, hr⟩ := Option.map_eq_some_iff.1 hloop
  have hdrive := eq_of_endsWithin (drive_eq t) hends
  dsimp only at hdrive hr
  have hrun : (run t "main.g" x).2.journal.diagnostics = [unclosedBlock main] := by
    rw [run_of_openFile hopen, hdrive]
    cases result with
    | error e => cases hr
    | ok => exact (Journal.diagnostics_note ..).trans (congrArg Prod.snd hr)
  refine ⟨unclosedBlock main, by rw [hrun]; exact List.mem_singleton_self _, hspan, hfile, ?_⟩
  rintro (hnone | ⟨name, text, ⟨y, -, -, failure?, hname⟩, line, column, hnamed, -⟩)
  · rw [hspan] at hnone
    cases hnone
  · obtain rfl : "no open file" = name := Option.some.inj (hfile.symm.trans hnamed)
    rw [hname] at hread
    cases hread

end Indexer
end ClassIndex
