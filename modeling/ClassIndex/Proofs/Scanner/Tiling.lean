/-
# Tokens tile their source

A source that is scanned alone falls into tiles, one for each token, and what is left behind the
last of them (`tokens_tile`):

| part | is |
| --- | --- |
| gap of a tile | blanks, complete comments, unknown bytes |
| bytes of a tile | from where the token starts to where the scanner is when it is shown |
| what is left | as a gap, perhaps with a comment without an end |

The bytes of a tile are the lexeme of its token, unless they begin with a quote.
-/

import ClassIndex.Proofs.Cursor.Kept
import ClassIndex.Proofs.Scanner.Isolation

namespace ClassIndex

namespace Position

/-- The line and the column grow with the bytes before them. -/
theorem eq_of_after_append {w v : List UInt8} (hline : (after (w ++ v)).line = (after w).line)
    (hcolumn : (after (w ++ v)).column = (after w).column) : v = [] := by
  rw [after_eq, after_eq] at hline hcolumn
  dsimp only at hline hcolumn
  have hcount : v.count 0x0a = 0 := by
    rw [List.count_append] at hline
    omega
  have hall : ∀ b ∈ v.reverse, (b != 0x0a) = true := by
    intro b hb
    have hmem : b ∈ v := List.mem_reverse.1 hb
    simpa using ne_of_mem_of_not_mem hmem (List.count_eq_zero.1 hcount)
  have hrun : (w ++ v).rtakeWhile (· != 0x0a) = w.rtakeWhile (· != 0x0a) ++ v := by
    rw [List.rtakeWhile, List.reverse_append, List.takeWhile_append_of_pos hall,
      List.reverse_append, List.reverse_reverse, List.rtakeWhile]
  rw [hrun, List.length_append] at hcolumn
  exact List.eq_nil_of_length_eq_zero (by omega)

/-- In a text, the line and the column tell the bytes before them. -/
theorem eq_of_after {text w v : List UInt8} (hw : w <+: text) (hv : v <+: text)
    (hline : (after w).line = (after v).line) (hcolumn : (after w).column = (after v).column) :
    w = v := by
  rcases List.prefix_or_prefix_of_prefix hw hv with ⟨u, rfl⟩ | ⟨u, rfl⟩
  · rw [eq_of_after_append hline.symm hcolumn.symm, List.append_nil]
  · rw [eq_of_after_append hline hcolumn, List.append_nil]

end Position

namespace Scanner

/-- The bytes of a token, and those before it that no token takes. -/
structure Tile where
  gap : List UInt8
  bytes : List UInt8

namespace Tile

/-- All bytes of a tile. -/
def text (t : Tile) : List UInt8 := t.gap ++ t.bytes

/-- The token begins with a quote. -/
def IsQuoted (t : Tile) : Prop := t.bytes.head? = some 0x22 ∨ t.bytes.head? = some 0x27

end Tile

/-- The next call shows the token of a tile that stands behind these bytes of a text. -/
structure Covers (s : Scanner) (name : String) (text before : List UInt8) (t : Tile) : Prop where
  kind : s.next.1 ≠ .endOfInput
  gap : Cursor.Filler Cursor.isPassed t.gap
  bytes : t.bytes ≠ []
  start : ∀ w, w <+: text →
    (s.next.2.tokenLocation = ⟨name, (Position.after w).line, (Position.after w).column⟩ ↔
      w = before ++ t.gap)
  stop : s.next.2.sources.map Source.position = [.after (before ++ t.text)]
  quoted : t.IsQuoted → s.next.1 = .quoted ∨ s.next.1 = .error
  lexeme : ¬ t.IsQuoted → s.next.2.lexeme.toList = t.bytes

variable {s : Scanner} {f : Source} {name : String} {text before gap w r : List UInt8} {b : UInt8}
  {d : Cursor}

/-- The token that a cursor was opened for covers the bytes up to where its reader stops. -/
theorem covers_of_opened (hsource : s.sources = [f]) (hbefore : text = before ++ (gap ++ b :: r))
    (hgap : Cursor.Filler Cursor.isPassed gap) (h : Cursor.Opened text w r b name d)
    (hd : (freshCursor s.preferences.warnUnrecognized f).token = d.piece b) :
    ∃ v g r', r = v ++ r' ∧ Covers s name text before ⟨gap, b :: v⟩ ∧ s.next.2.sources = [g] ∧
      g.Stands text r' ∧ g.name = name := by
  obtain ⟨kind, hkind⟩ := Option.isSome_iff_exists.1 (Cursor.isSome_piece h.begins h.stands)
  obtain ⟨hname, hstart, r', hs, v, rfl⟩ := h.standing
  have hw : w ++ b :: (v ++ r') = before ++ gap ++ b :: (v ++ r') := by
    rw [← h.split, hbefore, List.append_assoc]
  obtain rfl := List.append_cancel_right hw
  have hshows := next_of_some hsource (hd.trans (Prod.ext hkind rfl))
  refine ⟨v, (d.piece b).2.source, r', rfl, ?_, hshows.sources, hs, hname⟩
  refine ⟨?_, hgap, List.cons_ne_nil b v, ?_, ?_, ?_, ?_⟩
  · rw [hshows.kind]
    rintro rfl
    exact Cursor.piece_ne b d hkind
  · intro w hw
    rw [hshows.location, hname, hstart]
    constructor
    · intro hplace
      obtain ⟨-, hline, hcolumn⟩ := Location.mk.inj hplace
      exact (Position.eq_of_after ⟨_, h.split.symm⟩ hw (Int.ofNat_inj.1 hline)
        (Int.ofNat_inj.1 hcolumn)).symm
    · rintro rfl
      rfl
  · have htext : text = before ++ Tile.text ⟨gap, b :: v⟩ ++ r' := by
      rw [hbefore, Tile.text]
      simp
    rw [hshows.sources, List.map_singleton, hs.position_eq htext]
  · intro hquoted
    have hb : b = 0x22 ∨ b = 0x27 := by simpa [Tile.IsQuoted] using hquoted
    rw [Cursor.piece_quote hb] at hkind
    rw [hshows.kind, ← Option.some.inj hkind]
    exact Cursor.quoted_cases b d
  · intro hquoted
    have hb : ¬ (b = 0x22 ∨ b = 0x27) := by simpa [Tile.IsQuoted] using hquoted
    rw [hshows.lexeme]
    exact h.lexeme_piece hb hs

/-- A call on a single source shows the token of the next tile, or nothing is left but what stands
behind the last one. -/
theorem next_covers (hsource : s.sources = [f]) (hs : f.Stands text r) (hbefore : text = before ++ r)
    (hname : f.name = name) :
    (∃ t g r', r = t.text ++ r' ∧ Covers s name text before t ∧ s.next.2.sources = [g] ∧
        g.Stands text r' ∧ g.name = name) ∨
      (s.next.1 = .endOfInput ∧ Cursor.Trailing r) := by
  subst hname
  rcases Cursor.token_cases (c := freshCursor s.preferences.warnUnrecognized f) hs with
    ⟨gap, b, u, w, d, rfl, hgap, ho, hd⟩ | ⟨hnone, htrailing⟩
  · left
    obtain ⟨v, g, r', rfl, hcovers, hnext, hg, hname⟩ :=
      covers_of_opened hsource hbefore hgap ho hd
    exact ⟨⟨gap, b :: v⟩, g, r', by simp [Tile.text], hcovers, hnext, hg, hname⟩
  · right
    have hc : (freshCursor s.preferences.warnUnrecognized f).token =
        (none, (freshCursor s.preferences.warnUnrecognized f).token.2) := Prod.ext hnone rfl
    refine ⟨?_, htrailing⟩
    rw [(next_shows s).kind, hsource]
    exact (outcome_of_none hc).1

/-- From any place in its text on, a single source falls into tiles. -/
theorem exists_tiles (before : List UInt8) (hsource : s.sources = [f]) (hs : f.Stands text r)
    (hbefore : text = before ++ r) (hname : f.name = name) :
    ∃ (tiles : List Tile) (tail : List UInt8), r = tiles.flatMap Tile.text ++ tail ∧ Cursor.Trailing tail ∧
      (s.after tiles.length).next.1 = .endOfInput ∧
      ∀ k (hk : k < tiles.length),
        Covers (s.after k) name text (before ++ (tiles.take k).flatMap Tile.text) tiles[k] := by
  -- every tile takes bytes of what is left
  induction hn : r.length using Nat.strongRecOn generalizing s f r before with
  | ind n ih =>
    subst hn
    rcases next_covers hsource hs hbefore hname with ⟨t, g, r', rfl, ht, hg, hgs, hgname⟩ | hend
    · have hlt : r'.length < (t.text ++ r').length := by
        have := List.length_pos_iff.2 ht.bytes
        simp only [Tile.text, List.length_append]
        omega
      obtain ⟨tiles, tail, htail, htrailing, hend, hcovers⟩ :=
        ih _ hlt (before ++ t.text) hg hgs (by rw [hbefore, List.append_assoc]) hgname rfl
      refine ⟨t :: tiles, tail, ?_, htrailing, hend, ?_⟩
      · rw [List.flatMap_cons, List.append_assoc, ← htail]
      · rintro (_ | k) hk
        · simpa [after] using ht
        · simpa [after] using hcovers k (Nat.lt_of_succ_lt_succ hk)
    · refine ⟨[], r, rfl, hend.2, hend.1, fun k hk => absurd hk (Nat.not_lt_zero k)⟩

/-- **Tokens tile their source.** A source that is scanned alone is the tiles of its tokens, one
behind the other, and what stands behind the last of them. -/
theorem tokens_tile (preferences : ScanPreferences) (journal : Diagnostic.Journal) (name : String)
    (bytes : List UInt8) (failure? : Option String) :
    let s := ((new preferences journal).push (.ofBytes name bytes failure?)).2
    ∃ (tiles : List Tile) (tail : List UInt8), bytes = tiles.flatMap Tile.text ++ tail ∧ Cursor.Trailing tail ∧
      (s.after tiles.length).next.1 = .endOfInput ∧
      ∀ k (hk : k < tiles.length),
        Covers (s.after k) name bytes ((tiles.take k).flatMap Tile.text) tiles[k] := by
  intro s
  have hsource : s.sources = [.ofBytes name bytes failure?] := sources_push_new ..
  exact exists_tiles [] hsource (Source.stands_ofBytes name bytes failure?) rfl rfl

end Scanner
end ClassIndex
