/-
# Scanning strings of several segments

Where a source goes on with segments of one style that commas join, a call takes all of them and
shows what they denote, one after the other (`scan_segments`). Trivia behind the last of them is
passed over; what follows it is left for the next call, unless it is a comma:

| behind the segments and trivia | is left | is reported |
| --- | --- | --- |
| no comma | all of it | nothing |
| a comma, trivia, and no quote of the style | what follows that trivia | one error, at that place |

Nothing else is shown as a string without a report.
-/

import ClassIndex.Proofs.Cursor.Segmented
import ClassIndex.Proofs.Scanner.Literal

namespace ClassIndex

open Cursor (Clean Segments Trivia Filler)

namespace Cursor

variable {text r l w w' bytes value : List UInt8} {quote : UInt8} {c : Cursor}

/-- Behind segments that no comma follows, a string ends. -/
theorem Clean.quoted_end (hsegs : Segments quote bytes value) (ht : Trivia w r)
    (hcomma : r.head? ≠ some 0x2c) (h : Clean text (bytes ++ (w ++ r)) l c) :
    Gives text r (l ++ value) .quoted (c.quoted quote) := by
  have hquote : quote ≠ 0x0a := by rcases hsegs.quote_eq with rfl | rfl <;> decide
  obtain ⟨d, e, he, hd, hs⟩ := h.quoted_segments hsegs
  obtain ⟨f, hf, hsf⟩ := (hs.skipTrivia_trivia ht).goesOn hcomma quote
  rw [hd, quoted_of_quote hquote he, hf]
  exact ⟨rfl, hsf⟩

/-- Behind segments that a comma follows and no further one, a string ends with a fault. -/
theorem Clean.quoted_bad (hsegs : Segments quote bytes value) (hw : Filler Byte.isSpace w)
    (ht : Trivia w' r) (hhead : r.head? ≠ some quote)
    (h : Clean text (bytes ++ (w ++ 0x2c :: (w' ++ r))) l c) :
    ∃ d, c.quoted quote = (.quoted, d.report .badContinuation) ∧ Clean text r (l ++ value) d := by
  have hquote : quote ≠ 0x0a := by rcases hsegs.quote_eq with rfl | rfl <;> decide
  obtain ⟨d, e, he, hd, hs⟩ := h.quoted_segments hsegs
  obtain ⟨f, hf, hsf⟩ := hs.goesOn_bad hw ht hhead
  rw [hd, quoted_of_quote hquote he, hf]
  exact ⟨f, rfl, hsf⟩

end Cursor

namespace Scanner

variable {texts : List (String × List UInt8)} {s : Scanner} {f : Source} {outer : List Source}
  {rest : List UInt8} {quote : UInt8}

/-- **Commas join exactly the segments between them.** Where the source being read goes on with
segments of one style that commas join, a call shows a string of what they denote. If no comma
follows, what stands behind the trivia is left and nothing is reported. If one does, but no further
segment of the style, what stands behind the comma and trivia is left, and one error reported there
says so. And where a call shows a string and reports nothing, such segments were there. -/
theorem scan_segments (h : Reached texts s) (hsource : s.sources = f :: outer)
    (hsound : f.failure? = none) (hquote : quote = 0x22 ∨ quote = 0x27)
    (hrest : f.rest = quote :: rest) :
    (∀ bytes value w r, Segments quote bytes value → Trivia w r → rest = bytes ++ (w ++ r) →
      r.head? ≠ some 0x2c →
      s.next.1 = .quoted ∧ s.next.2.lexeme.toList = value ∧
        s.next.2.journal.diagnostics = s.journal.diagnostics ∧
        ∃ g, s.next.2.sources = g :: outer ∧ g.rest = r) ∧
    (∀ bytes value w w' r, Segments quote bytes value → Filler Byte.isSpace w → Trivia w' r →
      rest = bytes ++ (w ++ 0x2c :: (w' ++ r)) → r.head? ≠ some quote →
      s.next.1 = .quoted ∧ s.next.2.lexeme.toList = value ∧
        ∃ g, s.next.2.sources = g :: outer ∧ g.rest = r ∧
          s.next.2.journal.diagnostics = s.journal.diagnostics
            ++ [Fault.badContinuation.event g.location]) ∧
    (s.next.1 = .quoted → s.next.2.journal.diagnostics = s.journal.diagnostics →
      ∃ bytes value w r, rest = bytes ++ (w ++ r) ∧ Segments quote bytes value ∧ Trivia w r ∧
        r.head? ≠ some 0x2c) := by
  have hsounds := h.sound
  rw [hsource] at hsounds
  rcases hsounds with _ | ⟨⟨-, hs⟩, -⟩
  rw [hrest] at hs
  obtain ⟨d, hd, hclean⟩ := token_of_quote s.preferences.warnUnrecognized hquote hs hsound
  have hshows := next_of_some hsource hd
  refine ⟨?_, ?_, ?_⟩
  · rintro bytes value w r hsegs ht rfl hcomma
    obtain ⟨hkind, hend⟩ := hclean.quoted_end hsegs ht hcomma
    refine ⟨hshows.kind.trans hkind, hshows.lexeme.trans hend.lexeme, ?_, _, hshows.sources,
      hend.stands.left⟩
    rw [hshows.diagnostics, hend.faults, List.append_nil]
  · rintro bytes value w w' r hsegs hw ht rfl hhead
    obtain ⟨e, he, hbad⟩ := hclean.quoted_bad hsegs hw ht hhead
    rw [he] at hshows
    refine ⟨hshows.kind, hshows.lexeme.trans hbad.lexeme, _, hshows.sources, hbad.stands.left, ?_⟩
    rw [hshows.diagnostics, Cursor.report, hbad.faults]
    rfl
  · intro hkind hnothing
    rw [hshows.kind] at hkind
    rw [hshows.diagnostics, List.append_right_eq_self] at hnothing
    exact hclean.quoted_segmented hquote hkind hnothing

/-- Two segments that a comma joins between two comments, and behind them a comma and a segment of
the other style. -/
theorem scan_segments_joined :
    let bytes := [0x61, 0x27, 0x2f, 0x2a, 0x2a, 0x2f, 0x2c, 0x2f, 0x2f, 0x0a, 0x27, 0x62, 0x27]
    let text := 0x78 :: 0x27 :: (bytes ++ ([0x20] ++ [0x2c, 0x20, 0x22, 0x63, 0x22]))
    let s := (ofText "a.g" text .empty).next.2
    ∃ f g, Reached [("a.g", text)] s ∧ s.sources = [f] ∧ f.failure? = none ∧
      Segments 0x27 bytes [0x61, 0x62] ∧ f.rest = text.tail ∧
      s.next.1 = .quoted ∧ s.next.2.lexeme.toList = [0x61, 0x62] ∧
      s.next.2.sources = [g] ∧ g.rest = [0x22, 0x63, 0x22] ∧
      s.next.2.journal.diagnostics =
        s.journal.diagnostics ++ [Fault.badContinuation.event g.location] := by
  intro bytes text s
  have hsources : s.sources.map (fun f => (f.failure?, f.rest)) = [(none, text.tail)] := by
    decide +kernel
  obtain ⟨f, hsource, hf⟩ := List.map_eq_singleton_iff.1 hsources
  have hdepth : s.depth = 1 := by rw [depth, hsource, List.length_singleton]
  obtain ⟨hsound, hrest⟩ := Prod.mk.inj hf
  have hs : Reached [("a.g", text)] s := reached_next_ofText hdepth
  have hraw (b : UInt8) (hb : b ≠ 0x27 ∧ b ≠ 0x0a) : Cursor.Segment 0x27 [b] [b] :=
    .raw (List.forall_mem_singleton.2 hb)
  have hsegs : Segments 0x27 bytes [0x61, 0x62] :=
    .more (hraw 0x61 (by decide)) (Filler.block (v := []) (by simp) .nil)
      (Filler.line (v := []) (by simp) .nil) (.last (hraw 0x62 (by decide)))
  obtain ⟨hkind, hlexeme, g, hsource', hleft, hjournal⟩ :=
    (scan_segments hs hsource hsound (.inr rfl) hrest).2.1 bytes [0x61, 0x62] [0x20] [0x20]
      [0x22, 0x63, 0x22] hsegs (.byte (by decide) .nil)
      (.filler (.byte (by decide) .nil) (Cursor.bare_cons (by decide) (by decide) _)) rfl
      (by decide)
  exact ⟨f, g, hs, hsource, hsound, hsegs, hrest, hkind, hlexeme, hsource', hleft, hjournal⟩

end Scanner
end ClassIndex
