/-
# Where a block comment ends

Behind its opening sign a block comment takes all bytes up to the first star that a slash follows,
and these two. If there are none, it takes what is left of its source, which is reported, and
nothing of the sources around it (`block_ends_first`):

| behind the opening sign | taken |
| --- | --- |
| `*/`, `**/`, `***/` | the whole |
| `/*/`, `/**/` | the whole |
| `*/*/` | the first two bytes |
| `/`, `*`, `* /` | the whole, reported as without an end |

So what a call for a token shows is what it would show behind the comment, after that report.
-/

import ClassIndex.Proofs.Cursor.Trivia
import ClassIndex.Proofs.Scanner.Account

namespace ClassIndex
namespace Cursor

variable {text r t : List UInt8} {f : Source} {c : Cursor}

/-! ## The two ways a block is taken -/

/-- A block that has an end is taken up to it. -/
theorem skipBlock_ended {v : List UInt8} (h : f.Stands text (v ++ [0x2a, 0x2f] ++ r))
    (hv : ¬ [0x2a, 0x2f] <:+: v) :
    ∃ g, g.Stands text r ∧ g.name = f.name ∧
      ∀ c : Cursor, { c with source := f }.skipBlock false = (true, { c with source := g }) := by
  have hafter : afterBlock false (v ++ [0x2a, 0x2f] ++ r) = some r :=
    afterBlock_eq_some.2 ⟨v, by simp, hv⟩
  obtain ⟨g, hs, hname, -, hskip⟩ := skipBlock_reads false h
  rw [hafter] at hs hskip
  exact ⟨g, hs, hname, hskip⟩

/-- A block that has no end takes all that is left, and is reported where the source ends. -/
theorem skipBlock_unended (h : f.Stands text r) (hr : ¬ [0x2a, 0x2f] <:+: r) :
    ∃ g notices, g.Stands text [] ∧ g.ended = true ∧ g.name = f.name ∧ EndNotices f g notices ∧
      ∀ c : Cursor, { c with source := f }.skipBlock false = (false, { c with
        source := g
        faults := c.faults ++ notices ++ [Fault.unterminatedComment.event g.location] }) := by
  obtain ⟨e, hs, hname, hfailure, hskip⟩ := skipBlock_reads false h
  rw [afterBlock_eq_none.2 hr] at hs hskip
  obtain ⟨g, notices, hend, hended, hgname, hnotices, hg⟩ := next_at_nil hs
  refine ⟨g, notices, hend, hended, hgname.trans hname, ?_, fun c => ?_⟩
  · rwa [EndNotices, ← hfailure]
  · rw [hskip, hg]
    rfl

/-! ## The token behind a block -/

/-- A token is read behind a block as if it had begun there. -/
theorem token_behind_block (h : c.source.Stands text (0x2f :: 0x2a :: t))
    (hf : f = c.source.read.2.read.2) :
    c.token = ({ c with source := f }.skipBlock false).2.token := by
  obtain ⟨g, hs, -, -, -, hg⟩ := next_at_cons h
  obtain ⟨g', -, -, -, -, hg'⟩ := next_at_cons hs
  have hc : c.next = (some 0x2f, { c with source := g }) := hg c
  have hsource : f = g' := by
    rw [hf, ← source_next, hc, ← source_next, hg']
  have hspace : c.skipSpace.next = (some 0x2f, { c with source := g }) := by
    rw [skipSpace, skipWhile_eq, hc]
    exact next_again h hc
  rw [token_of_block hspace (hg' c), hsource]

/-- A source that has ended yields no token, and reports nothing. -/
theorem token_of_ended (hrest : c.source.rest = []) (hended : c.source.ended = true) :
    ∃ d, c.token = (none, d) ∧ d.faults = c.faults := by
  have hread : c.source.read = (.ended, c.source) := by
    have hreturned : c.source.returned = [] := (List.append_eq_nil_iff.1 hrest).1
    rw [Source.read, hreturned, hended]
    rfl
  have hnext : c.next = (none, c) := by rw [next, hread]
  have hspace : c.skipSpace = c := by rw [skipSpace, skipWhile_eq, hnext]
  refine ⟨c.begin, ?_, ?_⟩
  · rw [token_eq, begin_eq, hspace, next_within, hnext]
  · rw [begin_eq, hspace]
    rfl

end Cursor

namespace Scanner

variable {s : Scanner} {f g : Source} {outer : List Source} {text t : List UInt8}

/-- A call depends on the innermost source by the token that is read of it only. -/
theorem next_of_token_eq (hs : s.sources = f :: outer)
    (ht : (s.cursor g).token = (s.cursor f).token) :
    { s with sources := g :: outer }.next = s.next := by
  have hcursor : { s with sources := g :: outer }.cursor g = s.cursor g := rfl
  rw [next, next, hs]
  simp only [advance, hcursor, ht]
  rfl

/-- Where no token is left in the innermost source, a call is one on the sources around it, after
what was reported. -/
theorem next_of_none {c : Cursor} (hs : s.sources = f :: outer)
    (hc : (freshCursor s.preferences.warnUnrecognized f).token = (none, c)) :
    s.next.1 = { s with sources := outer }.next.1 ∧
      s.next.2.sources = { s with sources := outer }.next.2.sources ∧
      s.next.2.journal.diagnostics = s.journal.diagnostics ++ c.faults ++
        { s with sources := outer }.observe.diagnostics := by
  have hshows := next_shows s
  have houter := next_shows { s with sources := outer }
  rw [hs] at hshows
  rw [observe_eq, hshows.kind, hshows.sources, hshows.diagnostics, houter.kind, houter.sources]
  dsimp only
  cases outer with
  | nil => simp [outcome, hc]
  | cons g outer =>
    rw [outcome_cons_of_none hc (List.cons_ne_nil g outer)]
    exact ⟨rfl, rfl, (List.append_assoc ..).symm⟩

/-- **A block comment ends at the first star that a slash follows.** Let a source go on with the
sign that opens a block, and let a cursor stand behind this sign. If a star with a slash behind it
follows anywhere, the block is taken up to the first one and nothing is reported; a call for a token
does what it does behind the block. If none follows, the block takes all that is left and is
reported, once, where its source ends; a call goes on in the sources around it. -/
theorem block_ends_first (hs : f.Stands text (0x2f :: 0x2a :: t)) (hsource : s.sources = f :: outer)
    {c : Cursor} (hc : c.source = f.read.2.read.2) :
    ([0x2a, 0x2f] <:+: t →
      ∃ v g, t = v ++ [0x2a, 0x2f] ++ g.rest ∧ ¬ [0x2a, 0x2f] <:+: v ∧
        c.skipBlock false = (true, { c with source := g }) ∧
        c.source.HandsOut (v ++ [0x2a, 0x2f]) g ∧
        { s with sources := g :: outer }.next = s.next) ∧
    (¬ [0x2a, 0x2f] <:+: t →
      ∃ g notices, c.skipBlock false = (false, { c with
          source := g
          faults := c.faults ++ notices ++ [Fault.unterminatedComment.event g.location] }) ∧
        c.source.HandsOut t g ∧ g.rest = [] ∧ g.ended = true ∧ Cursor.EndNotices f g notices ∧
        s.next.1 = { s with sources := outer }.next.1 ∧
        s.next.2.sources = { s with sources := outer }.next.2.sources ∧
        s.next.2.journal.diagnostics = s.journal.diagnostics ++
          (notices ++ [Fault.unterminatedComment.event g.location]) ++
          { s with sources := outer }.observe.diagnostics) := by
  have hbehind : c.source.Stands text t := hc ▸ hs.read_read
  constructor
  · intro hends
    obtain ⟨v, r, rfl, hv⟩ := Cursor.exists_first_infix (by simp) hends
    obtain ⟨g, hg, hname, hskip⟩ := Cursor.skipBlock_ended hbehind hv
    refine ⟨v, g, by rw [hg.left], hv, hskip c, hbehind.handsOut hg hname,
      next_of_token_eq hsource ?_⟩
    rw [Cursor.token_behind_block (c := s.cursor f) hs hc, hskip]
    exact Cursor.token_within { s.cursor f with source := g } rfl g.position
  · intro hnone
    obtain ⟨g, notices, hg, hended, hname, hnotices, hskip⟩ :=
      Cursor.skipBlock_unended hbehind hnone
    refine ⟨g, notices, hskip c, ?_, hg.left, hended, ?_, ?_⟩
    · exact Source.Stands.handsOut (by rwa [List.append_nil]) hg hname
    · rwa [Cursor.EndNotices, hc, Source.failure_read, Source.failure_read] at hnotices
    · have htoken := Cursor.token_behind_block
        (c := freshCursor s.preferences.warnUnrecognized f) hs hc
      rw [hskip] at htoken
      obtain ⟨d, hd, hfaults⟩ := Cursor.token_of_ended (c := ⟨g, .empty, f.position,
        notices ++ [Fault.unterminatedComment.event g.location],
        s.preferences.warnUnrecognized⟩) hg.left hended
      have hcall := next_of_none hsource (htoken.trans hd)
      rwa [hfaults] at hcall

/-- Inside another source, a block with a run of stars before its end, and one whose only slash
stands before its only star. -/
theorem block_ends_first_nested :
    let outer := (ofText "b.g" [0x79] .empty).sources
    let inner := fun t => Source.ofBytes "a.g" (0x2f :: 0x2a :: t) none
    let s := fun t => ((ofText "b.g" [0x79] .empty).push (inner t)).2
    let ended : List UInt8 := [0x2f, 0x2a, 0x2a, 0x2a, 0x2f, 0x2a, 0x2f]
    let unended : List UInt8 := [0x2f, 0x2a]
    (∃ g : Source, g.rest = [0x2a, 0x2f] ∧
      { s ended with sources := g :: outer }.next = (s ended).next) ∧
    ∃ g : Source, g.rest = [] ∧ (s unended).next.1 = .identifier ∧
      (s unended).next.2.journal.diagnostics = [Fault.unterminatedComment.event g.location] := by
  intro outer inner s ended unended
  have hstands (t : List UInt8) : (inner t).Stands (0x2f :: 0x2a :: t) (0x2f :: 0x2a :: t) :=
    Source.stands_ofBytes "a.g" (0x2f :: 0x2a :: t) none
  have hsource (t : List UInt8) : (s t).sources = inner t :: outer := by
    have hroom : (ofText "b.g" [0x79] .empty).depth < maxDepth := by decide
    simp only [s]
    rw [push_of_lt hroom, sources_suspend]
  constructor
  · obtain ⟨v, g, ht, hv, -, -, hnext⟩ := (block_ends_first (hstands ended) (hsource ended)
      (c := (s ended).cursor (inner ended).read.2.read.2) rfl).1 (by decide)
    have hrest : Cursor.afterBlock false ended = some g.rest :=
      Cursor.afterBlock_eq_some.2 ⟨v, by simpa using ht, hv⟩
    exact ⟨g, (Option.some.inj hrest).symm, hnext⟩
  · obtain ⟨g, notices, -, -, hg, -, hnotices, hkind, -, hdiagnostics⟩ :=
      (block_ends_first (hstands unended) (hsource unended)
        (c := (s unended).cursor (inner unended).read.2.read.2) rfl).2 (by decide)
    obtain ⟨houter, hquiet, hbefore⟩ :
        { s unended with sources := outer }.next.1 = .identifier ∧
          { s unended with sources := outer }.observe.diagnostics = [] ∧
          (s unended).journal.diagnostics = [] := by
      decide +kernel
    obtain rfl : notices = [] := hnotices.resolve_right fun ⟨_, hfailure, _⟩ => by cases hfailure
    refine ⟨g, hg, hkind.trans houter, ?_⟩
    rw [hdiagnostics, hbefore, hquiet]
    rfl

end Scanner
end ClassIndex
