/-
# Open sources account for their texts

However calls to open a source and calls for a token alternate, each open source accounts for its
text: what it has handed out, what it has taken back and what it has not read make up the text,
and its position is that of the first part. A token is placed where its first byte stands in the
source that it is read from:

| part of the text | is |
| --- | --- |
| `w` | handed out before the call |
| `gap` | blanks, complete comments, unknown bytes |
| `b :: v` | the token, and what was read behind it and not given back |
-/

import ClassIndex.Proofs.Cursor.Begin
import ClassIndex.Proofs.Scanner.Isolation
import Mathlib.Data.List.Forall2

namespace ClassIndex

namespace Source

/-- A source of a text has handed out its first bytes `w`, and its position is after them. -/
structure Accounts (text w : List UInt8) (f : Source) : Prop where
  split : text = w ++ f.returned ++ f.unread
  few : f.returned.length ≤ 2
  position : f.position = w.foldl Position.advance .start
  offset : f.position.offset = w.length
  line : f.position.line = 1 + w.count 0x0a
  column : f.position.column = 1 + (w.rtakeWhile (· != 0x0a)).length

theorem Stands.accounts {text w r : List UInt8} {f : Source} (h : f.Stands text r)
    (hw : text = w ++ r) : f.Accounts text w := by
  have hp := h.position_eq hw
  have hleft := h.left
  refine ⟨?_, h.few, hp, ?_, ?_, ?_⟩
  · rw [hw, ← hleft, rest, List.append_assoc]
  all_goals rw [hp, Position.after_eq]

end Source

namespace Scanner

/-- The scanner that calls have led to, and the names and texts of the sources still open. -/
inductive Reached : List (String × List UInt8) → Scanner → Prop where
  | new (preferences : ScanPreferences) (journal : Diagnostic.Journal) :
    Reached [] (new preferences journal)
  | push {texts : List (String × List UInt8)} {s : Scanner} (h : Reached texts s)
    (hroom : s.depth < maxDepth) (name : String) (bytes : List UInt8) (failure? : Option String) :
    Reached ((name, bytes) :: texts) (s.push (.ofBytes name bytes failure?)).2
  | refused {texts : List (String × List UInt8)} {s : Scanner} (h : Reached texts s)
    (hfull : maxDepth ≤ s.depth) (f : Source) : Reached texts (s.push f).2
  | next {texts : List (String × List UInt8)} {s : Scanner} (h : Reached texts s) :
    Reached (texts.drop (texts.length - s.next.2.depth)) s.next.2

/-- Of open sources some are closed, then a token is read of `f`, which is left as `g`, and it is
placed where its first byte stands. -/
structure Placed (texts : List (String × List UInt8)) (sources left : List Source) (l : Location)
    (closed outer : List Source) (f g : Source) (text w gap v : List UInt8) (b : UInt8) :
    Prop where
  sources : sources = closed ++ f :: outer
  left : left = g :: outer
  named : texts[closed.length]? = some (g.name, text)
  before : f.Accounts text w
  after : g.Accounts text (w ++ gap ++ b :: v)
  filler : Cursor.Filler Cursor.isPassed gap
  begins : Cursor.Begins b (v ++ g.rest)
  location : l =
    ⟨g.name, 1 + (w ++ gap).count 0x0a, 1 + ((w ++ gap).rtakeWhile (· != 0x0a)).length⟩

/-- Open sources stand in their texts. -/
def Sound (texts : List (String × List UInt8)) (sources : List Source) : Prop :=
  List.Forall₂ (fun t f => f.name = t.1 ∧ f.Stands t.2 f.rest) texts sources

variable {texts : List (String × List UInt8)} {sources : List Source}

/-- A token leaves its source standing in its text. -/
theorem stands_token {text r : List UInt8} {f : Source} {warns : Bool} {kind : Token.Kind}
    {c : Cursor} (h : f.Stands text r) (hc : (freshCursor warns f).token = (some kind, c)) :
    c.source.name = f.name ∧ c.source.Stands text c.source.rest := by
  obtain ⟨-, -, -, -, -, -, -, -, hname, -, r', hs, -⟩ := Cursor.token_begins h hc
  exact ⟨hname, hs.left ▸ hs⟩

theorem Sound.outcome (warns : Bool) (h : Sound texts sources) :
    Sound (texts.drop (texts.length - (outcome warns sources).2.length))
      (outcome warns sources).2 := by
  induction h with
  | nil => exact .nil
  | @cons t f texts outer hf houter ih =>
    rcases hc : (freshCursor warns f).token with ⟨_ | kind, c⟩
    · rcases outer with _ | ⟨g, outer⟩
      · simp only [Scanner.outcome, hc, List.length_nil, Nat.sub_zero, List.drop_length]
        exact .nil
      · rw [outcome_cons_of_none hc (by simp)]
        have hlen := List.Forall₂.length_eq ih
        rw [List.length_drop] at hlen
        dsimp only
        rw [List.length_cons, show texts.length + 1 - (Scanner.outcome warns (g :: outer)).2.length =
          texts.length - (Scanner.outcome warns (g :: outer)).2.length + 1 by omega]
        exact ih
    · rw [(outcome_of_some hc outer).2.2]
      have hlen := List.Forall₂.length_eq houter
      obtain ⟨hname, hs⟩ := stands_token hf.2 hc
      rw [List.length_cons, List.length_cons, hlen, Nat.sub_self, List.drop_zero]
      exact .cons ⟨hname.trans hf.1, hs⟩ houter

/-- A call that yields a token yields it from one of the open sources. -/
theorem Sound.placed (warns : Bool) (h : Sound texts sources)
    (hk : (Scanner.outcome warns sources).1.kind ≠ .endOfInput) :
    ∃ closed outer f g text w gap v b, Placed texts sources (Scanner.outcome warns sources).2
      (Scanner.outcome warns sources).1.location closed outer f g text w gap v b := by
  induction h with
  | nil => exact absurd rfl hk
  | @cons t f texts outer hf houter ih =>
    rcases hc : (freshCursor warns f).token with ⟨_ | kind, c⟩
    · have hne : outer ≠ [] := fun hnil => hk (by rw [hnil]; exact (outcome_of_none hc).1)
      rw [outcome_cons_of_none hc hne] at hk ⊢
      obtain ⟨closed, outer', f', g, text, w, gap, v, b, hp⟩ := ih hk
      refine ⟨f :: closed, outer', f', g, text, w, gap, v, b, ?_⟩
      exact ⟨congrArg (f :: ·) hp.sources, hp.left, by simpa using hp.named, hp.before, hp.after,
        hp.filler, hp.begins, hp.location⟩
    · obtain ⟨gap, b, r, w', hr, hgap, hb, hw', hname, hstart, r', hs, v, hv⟩ :=
        Cursor.token_begins hf.2 hc
      obtain ⟨w, hw, -⟩ := hf.2.passed
      have hw₁ : w' = w ++ gap := by
        rw [hr, ← List.append_assoc] at hw
        exact List.append_cancel_right (hw'.symm.trans hw)
      have hw₂ : t.2 = w ++ gap ++ b :: v ++ r' := by rw [hw', hw₁, ← hv]; simp
      refine ⟨[], outer, f, c.source, t.2, w, gap, v, b, rfl, (outcome_of_some hc outer).2.2, ?_,
        hf.2.accounts hw, hs.accounts hw₂, hgap, ?_, ?_⟩
      · exact congrArg some (Prod.ext (hname.trans hf.1).symm rfl)
      · rwa [hs.left, hv]
      · simp only [Scanner.outcome, hc, hstart, Position.after_eq, hw₁]
        simp

theorem Reached.sound {s : Scanner} (h : Reached texts s) : Sound texts s.sources := by
  induction h with
  | new => exact .nil
  | push _ hroom name bytes failure? ih =>
    rw [push_of_lt hroom, sources_suspend]
    exact .cons ⟨rfl, Source.stands_ofBytes name bytes failure?⟩ ih
  | @refused _ s _ hfull f ih =>
    rw [Scanner.push, if_pos hfull, sources_refuse]
    exact ih
  | @next _ s _ ih =>
    rw [depth, sources_next]
    exact ih.outcome _

/-- The source that is read on stands in its text. -/
theorem Reached.stands {s : Scanner} {f : Source} {outer : List Source} (h : Reached texts s)
    (hsource : s.sources = f :: outer) : ∃ text, f.Stands text f.rest := by
  have hsound := h.sound
  rw [hsource] at hsound
  cases hsound with
  | cons hf => exact ⟨_, hf.2⟩

/-- **No byte is lost or read twice, and positions are exact.** Every open source accounts for its
text, and a token is placed at its first byte in the source that is then read. -/
theorem Reached.accounted {s : Scanner} (h : Reached texts s) :
    List.Forall₂ (fun t f => f.name = t.1 ∧ ∃ w, f.Accounts t.2 w) texts s.sources ∧
      (s.next.1 ≠ .endOfInput → ∃ closed outer f g text w gap v b,
        Placed texts s.sources s.next.2.sources s.next.2.tokenLocation closed outer f g text w gap
          v b) := by
  have hs := h.sound
  constructor
  · refine hs.imp ?_
    rintro t f ⟨hname, hstands⟩
    obtain ⟨w, hw, -⟩ := hstands.passed
    exact ⟨hname, w, hstands.accounts hw⟩
  · intro hk
    have hshows := next_shows s
    rw [hshows.kind] at hk
    rw [hshows.sources, hshows.location]
    exact hs.placed _ hk

/-- A call on a text leads to a scanner over this text, if it does not come to its end. -/
theorem reached_next_ofText {name : String} {bytes : List UInt8} {journal : Diagnostic.Journal}
    (hopen : (ofText name bytes journal).next.2.depth = 1) :
    Reached [(name, bytes)] (ofText name bytes journal).next.2 := by
  have hnext := ((Reached.new default journal).push (Nat.zero_lt_succ 14) name bytes none).next
  change Reached (List.drop (1 - (ofText name bytes journal).next.2.depth) [(name, bytes)])
    (ofText name bytes journal).next.2 at hnext
  rwa [hopen] at hnext

/-- A word on the line after a comment. -/
theorem accounted_after_comment :
    let s := (ofText "a.g" [0x78, 0x2f, 0x2f, 0x0a, 0x79] .empty).next.2
    Reached [("a.g", [0x78, 0x2f, 0x2f, 0x0a, 0x79])] s ∧ s.next.1 ≠ .endOfInput ∧
      ∃ closed outer f g text w gap v b,
        Placed [("a.g", [0x78, 0x2f, 0x2f, 0x0a, 0x79])] s.sources s.next.2.sources
          s.next.2.tokenLocation closed outer f g text w gap v b := by
  intro s
  obtain ⟨hdepth, hk⟩ : s.depth = 1 ∧ s.next.1 ≠ .endOfInput := by decide +kernel
  have hs : Reached [("a.g", [0x78, 0x2f, 0x2f, 0x0a, 0x79])] s := reached_next_ofText hdepth
  exact ⟨hs, hk, (Reached.accounted hs).2 hk⟩

end Scanner
end ClassIndex
