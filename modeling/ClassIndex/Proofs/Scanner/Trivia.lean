/-
# Passing over blanks and comments between two calls

Behind a string, the reader of a continuation passes over blanks and comments without a token. If a
scanner does so between two calls, the second call comes to the same (`next_skipTrivia`):

| what is compared | between passing over trivia first and not |
| --- | --- |
| kind, lexeme and location of the token | equal |
| open sources, their positions and the bytes they have left | equal |
| counts | equal |
| journal | equal: a fault met in the trivia is recorded before the call and not again in it |

So there is one notion of what stands between tokens, though two readers look for it.
-/

import ClassIndex.Proofs.Cursor.Trivia
import ClassIndex.Proofs.Scanner.Account
import ClassIndex.Proofs.Scanner.Resumption

namespace ClassIndex

theorem Diagnostic.Journal.addDiagnostics_append (j : Journal) (events events' : List Event) :
    j.addDiagnostics (events ++ events') = (j.addDiagnostics events).addDiagnostics events' :=
  List.foldl_append

namespace Scanner

/-- Passes over the blanks and comments that stand next in the source being read. -/
def skipTrivia (s : Scanner) : Scanner :=
  match s.sources with
  | [] => s
  | f :: outer =>
    let c := (s.cursor f).skipTrivia
    { s with sources := c.source :: outer, journal := s.journal.addDiagnostics c.faults }

variable {texts : List (String × List UInt8)} {s t : Scanner} {text r : List UInt8} {f : Source}
  {outer : List Source}

/-- Where trivia has been passed over, the cursor of the next token has forgotten the faults. -/
theorem token_cursor_skipTrivia (h : f.Stands text r) {c : Cursor}
    (hc : c = (s.cursor f).skipTrivia) (sources : List Source) (journal : Diagnostic.Journal) :
    ∃ x d, ({ s with sources, journal }.cursor c.source).token = (x, d) ∧
      (s.cursor f).token = (x, d.told c.faults) := by
  have hlexeme : c.lexeme = s.lexeme := by rw [hc, Cursor.lexeme_skipTrivia]; rfl
  have hwarns : c.warns = s.preferences.warnUnrecognized := by
    rw [hc, Cursor.warns_skipTrivia]; rfl
  have hcursor : ({ s with sources, journal }.cursor c.source).told c.faults
      = c.within c.lexeme c.source.position := by
    rw [cursor, ← hlexeme, ← hwarns, Cursor.told, List.append_nil]
    rfl
  refine ⟨_, _, rfl, ?_⟩
  rw [← Cursor.token_told, hcursor, Cursor.token_within c rfl, hc]
  exact (Cursor.token_skipTrivia h).1.symm

/-- A token is found as if trivia had not been passed over. -/
theorem advance_skipTrivia (h : f.Stands text r) (hs : s.sources = f :: outer) :
    s.skipTrivia.advance s.skipTrivia.sources = s.advance s.sources := by
  rw [hs, skipTrivia, hs]
  dsimp only
  obtain ⟨x, d, hd, hc⟩ := token_cursor_skipTrivia (s := s) h rfl
    ((s.cursor f).skipTrivia.source :: outer)
    (s.journal.addDiagnostics (s.cursor f).skipTrivia.faults)
  cases x with
  | none =>
    simp only [advance, hd, hc, settle, Cursor.told, Diagnostic.Journal.addDiagnostics_append]
    rfl
  | some kind =>
    simp only [advance, hd, hc, settle, Cursor.told, Diagnostic.Journal.addDiagnostics_append]

/-- **Trivia that has been passed over makes no difference,** and none stands before the token then.
This holds of every scanner with the sources of one that calls have led to, whatever else it has
recorded. -/
theorem next_skipTrivia (h : Reached texts t) (hs : s.sources = t.sources) :
    s.skipTrivia.next = s.next ∧ Cursor.Bare s.skipTrivia.left := by
  have hsound := h.sound
  rw [← hs] at hsound
  cases hsources : s.sources with
  | nil =>
    have hskip : s.skipTrivia = s := by rw [skipTrivia, hsources]
    rw [hskip, left, hsources]
    exact ⟨rfl, Cursor.bare_nil⟩
  | cons f outer =>
    rw [hsources] at hsound
    obtain ⟨⟨name, text⟩, _, ⟨-, hstands⟩, -, -⟩ := List.forall₂_cons_right_iff.1 hsound
    constructor
    · rw [next, next, advance_skipTrivia hstands hsources]
    · obtain ⟨-, r', hs', hbare⟩ := Cursor.token_skipTrivia (c := s.cursor f) hstands
      rw [left, skipTrivia, hsources]
      simp only [List.head?_cons, Option.map_some, Option.getD_some]
      rwa [hs'.left]

/-- A comment without an end, behind a slash that opens none. -/
theorem next_skipTrivia_unended :
    let s := (ofText "a.g" [0x78, 0x2f, 0x2f, 0x0a, 0x2f, 0x20, 0x2f, 0x2a] .empty).next.2
    Reached [("a.g", [0x78, 0x2f, 0x2f, 0x0a, 0x2f, 0x20, 0x2f, 0x2a])] s ∧
      s.skipTrivia.left = [0x2f, 0x20, 0x2f, 0x2a] ∧ s.skipTrivia.next = s.next := by
  intro s
  obtain ⟨hdepth, hleft⟩ : s.depth = 1 ∧ s.skipTrivia.left = [0x2f, 0x20, 0x2f, 0x2a] := by
    decide +kernel
  have hs : Reached [("a.g", [0x78, 0x2f, 0x2f, 0x0a, 0x2f, 0x20, 0x2f, 0x2a])] s :=
    reached_next_ofText hdepth
  exact ⟨hs, hleft, (next_skipTrivia hs rfl).1⟩

end Scanner
end ClassIndex
