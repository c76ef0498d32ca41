/-
# Calls on an index

An index is asked for runs, for listings of tokens and for listings of symbols, in any order, and
goes on with what the calls before have left: the open sources, the symbols and the journal.

| call | answer | what stops it |
| --- | --- | --- |
| run | a summary | a source that is not opened, an import that is not found |
| listing of tokens | a summary | the same, and an output that is full |
| listing of symbols | nothing | an output that is full |
-/

import ClassIndex.Proofs.Indexer.Inclusion

namespace ClassIndex

namespace Indexer

/-- The error of a result. -/
def error? {α : Type} : Except IndexError α → Option IndexError
  | .error e => some e
  | .ok _ => none

/-- Something that is asked of an index. -/
inductive Call where
  | run (t : FileTree) (path : String)
  | dump (t : FileTree) (path : String) (sink : Sink)
  | write (sink : Sink)

/-- What an index answers. -/
inductive Answer where
  | scanned (result : Except IndexError Summary)
  | written (result : Except IndexError Unit)

/-- The error that has stopped a call. -/
def Answer.error? : Answer → Option IndexError
  | .scanned result => Indexer.error? result
  | .written result => Indexer.error? result

/-- The answer of an index, and the index afterwards. -/
def answer (x : Indexer) : Call → Answer × Indexer
  | .run t path => (run t path x).map .scanned id
  | .dump t path sink => (dumpTokens t path sink x).map .scanned id
  | .write sink => (writeSymbols sink x).map .written id

/-- The index after a row of calls. -/
def after (x : Indexer) (calls : List Call) : Indexer :=
  calls.foldl (fun x call => (x.answer call).2) x

/-- An index with its keys in order. -/
def Known (p : ScanPreferences) (w : SearchPath) (x : Indexer) : Prop := ∃ keys, Knows p w keys x

variable {p : ScanPreferences} {w : SearchPath} {x y : Indexer}

namespace Known

/-- What leaves the symbols alone leaves the keys in order. -/
theorem congr (h : Known p w x) (hsymbols : y.symbols = x.symbols)
    (hpath : y.searchPath = x.searchPath)
    (hpreferences : y.scanner.preferences = x.scanner.preferences) : Known p w y :=
  h.imp fun _ hk => hk.congr hsymbols hpath hpreferences

theorem new (p : ScanPreferences) (w : SearchPath) (j : Diagnostic.Journal) :
    Known p w (Indexer.new p w j) :=
  ⟨∅, rfl, rfl, ⟨∅, ""⟩, SymbolTable.keeps_empty, by simp⟩

theorem nextToken (h : Known p w x) : Known p w x.nextToken.2 :=
  h.congr rfl rfl (Scanner.preferences_next _)

theorem openImport (h : Known p w x) (t : FileTree) (name : String) :
    Known p w (x.openImport t name).2 :=
  let ⟨hsymbols, hpath, hpreferences⟩ := openImport_symbols x t name
  h.congr hsymbols hpath hpreferences

theorem declareClass (h : Known p w x) (name : String) : Known p w (x.declareClass name).2 := by
  obtain ⟨keys, hknows⟩ := h
  obtain ⟨r, hr, -⟩ := hknows.symbols
  obtain ⟨result, y, r', events, hdeclare, hscanner, hpath, hr', -⟩ := declareClass_spec hr name
  rw [hdeclare]
  exact ⟨_, by rw [hscanner]; exact hknows.preferences, hpath.trans hknows.searchPath, r', hr', rfl⟩

end Known

/-- **A token names a class, names an import, or leads to the same from every index,** where at the
most it is recorded as misplaced. -/
theorem course_cases (t : FileTree) (place : Place) (kind : Token.Kind) :
    (place = .behindClass ∧ kind = .identifier) ∨ (place = .behindImport ∧ kind = .quoted) ∨
      ∃ c : Indexer → Course,
        (c = .stop (.ok ()) ∧ kind = .endOfInput ∨ ∃ place', c = .goOn place') ∧
        ∀ x, ∃ y, take t place kind x = c y ∧
          (y = x ∨ ∃ f : Fault, f.code = "E030" ∧ (y = x.report f ∨ y = x.reportToken f)) := by
  by_cases hclass : place = .behindClass ∧ kind = .identifier
  · exact .inl hclass
  by_cases himport : place = .behindImport ∧ kind = .quoted
  · exact .inr (.inl himport)
  refine .inr (.inr ?_)
  by_cases hk : kind = .endOfInput
  · subst hk
    cases place with
    | betweenDefinitions => exact ⟨_, .inl ⟨rfl, rfl⟩, fun x => ⟨x, rfl, .inl rfl⟩⟩
    | inHead | inMalformed => exact ⟨_, .inr ⟨_, rfl⟩, fun x => ⟨x, rfl, .inl rfl⟩⟩
    | behindClass | behindImport =>
      exact ⟨_, .inr ⟨_, rfl⟩, fun x => ⟨_, rfl, .inr ⟨_, rfl, .inl rfl⟩⟩⟩
    | inBlock => exact ⟨_, .inr ⟨_, rfl⟩, fun x => ⟨_, rfl, .inr ⟨_, rfl, .inr rfl⟩⟩⟩
  · exact ⟨_, .inr ⟨_, rfl⟩, fun _ => take_of_unnamed hk hclass himport⟩

end Indexer
end ClassIndex
