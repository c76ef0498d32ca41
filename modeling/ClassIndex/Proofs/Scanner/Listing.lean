/-
# Rows of listed tokens

A source read alone is a row of tokens, each with its text and the place where it starts
(`Source.Lists`). It is the same row wherever the source lies on a stack, for the place of a token
is that in its own source: sources above it that have ended change nothing, and what lies below it
is not looked at (`next_of_lists`).
-/

import ClassIndex.Proofs.Scanner.Tokens
import ClassIndex.Token.Listed

namespace ClassIndex

open Diagnostic (Entry Event)
open Token (Listed)

namespace Diagnostic.Journal

/-- Everything written so far. -/
def output (j : Journal) : List UInt8 := j.entries.toList.flatMap Entry.outputBytes

@[simp] theorem output_add (j : Journal) (e : Entry) :
    (j.add e).output = j.output ++ e.outputBytes := by
  simp [output, add]

@[simp] theorem output_note (j : Journal) (e : Event) : (j.note e).output = j.output := by
  simp [note, Entry.outputBytes]

@[simp] theorem output_addDiagnostics (j : Journal) (events : List Event) :
    (j.addDiagnostics events).output = j.output := by
  induction events generalizing j with
  | nil => rfl
  | cons e events ih =>
    rw [addDiagnostics, List.foldl_cons, ← addDiagnostics, ih, output_add]
    exact List.append_nil _

end Diagnostic.Journal

open Scanner (freshCursor outcome)

/-- A token that was read, as it is listed. -/
def Cursor.listed (c : Cursor) (kind : Token.Kind) : Listed :=
  ⟨kind, Text.lossy c.lexeme.toList, c.source.name, c.start.line, c.start.column⟩

namespace Source

/-- A source read alone is this row of tokens. -/
inductive Lists (w : Bool) : Source → List Listed → Prop
  | nil {f : Source} {c : Cursor} (h : (freshCursor w f).token = (none, c)) : Lists w f []
  | cons {f : Source} {kind : Token.Kind} {c : Cursor} {ls : List Listed}
      (h : (freshCursor w f).token = (some kind, c)) (hrest : Lists w c.source ls) :
      Lists w f (c.listed kind :: ls)

theorem Holds.exists_lists {w : Bool} {f : Source} {ts : List Token.Scanned} {events : List Event}
    (h : f.Holds w ts events) : ∃ ls, f.Lists w ls := by
  induction h with
  | nil hc => exact ⟨[], .nil hc⟩
  | cons hc _ ih =>
    obtain ⟨ls, h⟩ := ih
    exact ⟨_, .cons hc h⟩

theorem exists_lists (w : Bool) (f : Source) : ∃ ls, f.Lists w ls := by
  obtain ⟨ts, events, h⟩ := f.exists_holds w
  exact h.exists_lists

end Source

namespace Scanner

variable {s : Scanner} {w : Bool} {f : Source} {closed sources outer : List Source} {l : Listed}
  {ls : List Listed}

/-! ## Sources that have ended -/

/-- Sources that have ended leave only their diagnostics. -/
theorem outcome_ended (hclosed : ∀ e ∈ closed, e.Lists w []) (hne : sources ≠ []) :
    ∃ events, outcome w (closed ++ sources)
      = ((outcome w sources).1.preceded events, (outcome w sources).2) := by
  induction closed with
  | nil => exact ⟨[], rfl⟩
  | cons e closed ih =>
    obtain ⟨he, hclosed⟩ := List.forall_mem_cons.1 hclosed
    obtain ⟨events, ih⟩ := ih hclosed
    cases he with
    | @nil _ c hc =>
      refine ⟨c.faults ++ events, ?_⟩
      rw [List.cons_append, outcome_cons_of_none hc (List.append_ne_nil_of_right_ne_nil _ hne), ih]
      simp only [Observation.preceded, List.append_assoc]

/-- Where all sources have ended, so has the input. -/
theorem outcome_all_ended (hclosed : ∀ e ∈ closed, e.Lists w []) :
    (outcome w closed).1.kind = .endOfInput := by
  induction closed with
  | nil => rfl
  | cons e closed ih =>
    obtain ⟨he, hclosed⟩ := List.forall_mem_cons.1 hclosed
    cases he with
    | nil hc =>
      rcases closed with _ | ⟨e', closed⟩
      · exact (outcome_of_none hc).1
      · rw [outcome_cons_of_none hc (List.cons_ne_nil _ _)]
        exact ih hclosed

/-! ## One call -/

/-- The last token, as it is listed. -/
def listed (s : Scanner) (kind : Token.Kind) : Listed :=
  ⟨kind, s.lexemeText, s.tokenLocation.file, s.tokenLocation.line, s.tokenLocation.column⟩

/-- **A call shows the next token of the innermost source that has not ended,** at its place in
that source, and leaves it innermost. -/
theorem next_of_lists (hs : s.sources = closed ++ f :: outer)
    (hclosed : ∀ e ∈ closed, e.Lists s.preferences.warnUnrecognized [])
    (hf : f.Lists s.preferences.warnUnrecognized (l :: ls)) :
    ∃ g, s.next.1 = l.kind ∧ s.next.2.listed l.kind = l ∧ s.next.2.sources = g :: outer ∧
      g.Lists s.preferences.warnUnrecognized ls := by
  have hshows := next_shows s
  obtain ⟨events, hended⟩ := outcome_ended hclosed (List.cons_ne_nil f outer)
  rw [hs, hended] at hshows
  cases hf with
  | @cons _ kind c _ hc hrest =>
    simp only [outcome, hc] at hshows
    refine ⟨c.source, hshows.kind, ?_, hshows.sources, hrest⟩
    rw [listed, lexemeText, Buffer.text, hshows.lexeme, hshows.location]
    rfl

/-- Where all sources have ended, a call meets the end of the input. -/
theorem next_of_all_ended
    (hclosed : ∀ e ∈ s.sources, e.Lists s.preferences.warnUnrecognized []) :
    s.next.1 = .endOfInput :=
  (next_shows s).kind.trans (outcome_all_ended hclosed)

theorem output_noteSource (s : Scanner) (e : Event) :
    (s.noteSource e).journal.output = s.journal.output := by
  unfold noteSource
  split
  · exact Diagnostic.Journal.output_note ..
  · rfl

theorem output_advance (s : Scanner) (sources : List Source) :
    (s.advance sources).2.journal.output = s.journal.output := by
  induction sources generalizing s with
  | nil => rfl
  | cons f outer ih =>
    have hclose (c : Cursor) : ((s.settle c).close c.source outer).journal.output
        = s.journal.output :=
      (output_noteSource ..).trans (Diagnostic.Journal.output_addDiagnostics ..)
    unfold advance
    split
    · exact Diagnostic.Journal.output_addDiagnostics ..
    · dsimp only
      split
      · exact hclose _
      · exact (ih _).trans (hclose _)

/-- A call writes nothing. -/
theorem output_next (s : Scanner) : s.next.2.journal.output = s.journal.output := by
  have hcount (s : Scanner) (kind : Token.Kind) :
      (s.count kind).journal.output = s.journal.output := by
    unfold count
    dsimp only
    split
    · exact Diagnostic.Journal.output_note ..
    · rfl
  exact (hcount _ _).trans (output_advance s s.sources)

/-- Opening a source writes nothing. -/
theorem output_suspend (s : Scanner) (f : Source) :
    (s.suspend f).journal.output = s.journal.output := output_noteSource ..

/-! ## The whole input -/

/-- The tokens of all calls up to the end of the input, as they are listed. -/
def listing (s : Scanner) : List Listed :=
  if _h : s.next.1 = .endOfInput then []
  else s.next.2.listed s.next.1 :: s.next.2.listing
termination_by weight 1 s.sources
decreasing_by
  have hpos : 0 < tokenWeight 1 s.next.2.sources := tokenWeight_pos Nat.one_pos
  rcases next_weight 1 s with ⟨hk, _⟩ | hw
  · exact absurd hk _h
  · omega

theorem kind_ne_of_lists (hf : f.Lists w ls) : ∀ l ∈ ls, l.kind ≠ .endOfInput := by
  induction hf with
  | nil => exact List.forall_mem_nil _
  | @cons f kind c ls hc _ ih =>
    have hne := Cursor.token_ne_endOfInput (freshCursor w f)
    rw [hc] at hne
    exact List.forall_mem_cons.2 ⟨fun hk => hne (congrArg some hk), ih⟩

/-- A source that is open alone is listed as the row that it is. -/
theorem listing_of_lists (hs : s.sources = [f])
    (hf : f.Lists s.preferences.warnUnrecognized ls) : s.listing = ls := by
  induction ls generalizing s f with
  | nil =>
    rw [listing, dif_pos (next_of_all_ended (by rw [hs]; exact List.forall_mem_singleton.2 hf))]
  | cons l ls ih =>
    obtain ⟨g, hk, hl, hsources, hg⟩ :=
      next_of_lists (show s.sources = [] ++ f :: [] from hs) (List.forall_mem_nil _) hf
    rw [listing, dif_neg (hk ▸ kind_ne_of_lists hf l List.mem_cons_self), hk, hl,
      ih hsources (by rwa [preferences_next])]

end Scanner
end ClassIndex
