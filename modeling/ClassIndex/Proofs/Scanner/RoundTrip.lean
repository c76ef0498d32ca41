/-
# Printing tokens and scanning them back

Tokens are printed one after the other, with blanks and complete comments between them that begin
with a blank. Scanning what is printed gives the tokens back, and no diagnostic. Only a string
that a comma follows is left out: the scanner would look for a further segment behind the comma.
-/

import ClassIndex.Proofs.Cursor.Spelled
import ClassIndex.Proofs.Scanner.Isolation

namespace ClassIndex

/-- What may stand between two printed tokens: blanks and complete comments, a blank first. -/
structure Separator (w : List UInt8) : Prop where
  filler : Cursor.Filler Byte.isSpace w
  blank : ∃ b v, w = b :: v ∧ Byte.isSpace b = true

/-- Tokens are printed as these bytes, with some choice of what stands between them. -/
inductive Layout : List Token.Spelled → List UInt8 → Prop where
  | nil : Layout [] []
  | last (t : Token.Spelled) : Layout [t] t.text
  | cons {t u : Token.Spelled} {ts : List Token.Spelled} {w bytes : List UInt8}
    (hw : Separator w) (hcomma : ¬ (t.kind = .quoted ∧ u.kind = .comma))
    (h : Layout (u :: ts) bytes) : Layout (t :: u :: ts) (t.text ++ (w ++ bytes))

theorem Separator.apart {w : List UInt8} (h : Separator w) (r : List UInt8) :
    Cursor.Apart (w ++ r) := by
  obtain ⟨b, v, rfl, hb⟩ := h.blank
  rintro b' hb'
  obtain rfl : b = b' := by simpa using hb'
  exact hb

/-- What is printed begins with the first token. -/
theorem Layout.begins {t : Token.Spelled} {ts : List Token.Spelled} {bytes : List UInt8}
    (h : Layout (t :: ts) bytes) :
    ∃ b v, bytes = b :: v ∧ Cursor.Begins b v ∧ (b = 0x2c → t.kind = .comma) := by
  cases h with
  | last =>
    obtain ⟨b, v, hbv, hb, hcomma⟩ := Cursor.begins_of_spells t.spells (r := []) (by simp [Cursor.Apart])
    exact ⟨b, v, hbv, by simpa using hb, hcomma⟩
  | @cons _ u ts w bytes hw =>
    obtain ⟨b, v, hbv, hb, hcomma⟩ := Cursor.begins_of_spells t.spells (hw.apart bytes)
    exact ⟨b, v ++ (w ++ bytes), by rw [hbv, List.cons_append], hb, hcomma⟩

namespace Scanner

variable {s : Scanner} {f : Source} {text w : List UInt8}

/-- A call on a single source that leads to a spelled token shows this token. -/
theorem next_of_spells {v r : List UInt8} {t : Token.Spelled} (hsource : s.sources = [f])
    (hs : f.Stands text (w ++ (t.text ++ (v ++ r)))) (hsound : f.failure? = none)
    (hw : Cursor.Filler Byte.isSpace w) (hv : Cursor.Filler Byte.isSpace v)
    (hapart : Cursor.Apart (v ++ r)) (hr : Cursor.Bare r)
    (hcomma : t.kind = .quoted → r.head? ≠ some 0x2c) :
    (s.observe.kind = t.kind ∧ s.observe.lexeme = t.lexeme ∧ s.observe.diagnostics = []) ∧
      ∃ g v', s.next.2.sources = [g] ∧ g.Stands text (v' ++ r) ∧ g.failure? = none ∧
        Cursor.Filler Byte.isSpace v' := by
  obtain ⟨c, hc, hcs, hpass⟩ := Cursor.token_filler
    (c := freshCursor s.preferences.warnUnrecognized f) hw hs
  obtain ⟨d, v', hd, hv', hclean⟩ := Cursor.token_of_spells t.spells hcs
    (hpass.failure.trans hsound) (hpass.faults hsound) hv hapart hr hcomma
  have ho : outcome s.preferences.warnUnrecognized s.sources =
      (⟨t.kind, d.lexeme.toList, ⟨d.source.name, d.start.line, d.start.column⟩, d.faults⟩,
        [d.source]) := by
    rw [hsource, outcome, hc, hd]
  rw [observe_eq, sources_next, ho]
  exact ⟨⟨rfl, hclean.lexeme, hclean.faults⟩, d.source, v', rfl, hclean.stands, hclean.sound, hv'⟩

/-- Where no source is open, every call shows the end of the input. -/
theorem stream_of_closed (h : s.sources = []) (k : Nat) :
    (s.stream k).kind = .endOfInput ∧ (s.stream k).diagnostics = [] := by
  induction k generalizing s with
  | zero =>
    rw [stream_zero, observe_eq, h]
    exact ⟨rfl, rfl⟩
  | succ k ih =>
    rw [stream_succ]
    exact ih (by rw [sources_next, h]; rfl)

/-- Where a single source has only blanks and complete comments left, the input ends. -/
theorem stream_of_end (hsource : s.sources = [f]) (hs : f.Stands text w)
    (hsound : f.failure? = none) (hw : Cursor.Filler Byte.isSpace w) (k : Nat) :
    (s.stream k).kind = .endOfInput ∧ (s.stream k).diagnostics = [] := by
  rw [← List.append_nil w] at hs
  obtain ⟨c, hc, hcs, hpass⟩ := Cursor.token_filler
    (c := freshCursor s.preferences.warnUnrecognized f) hw hs
  obtain ⟨d, hd, hend⟩ := Cursor.token_nil hcs
  have hfaults : d.faults = [] := (hpass.trans hend).faults hsound
  have ho : outcome s.preferences.warnUnrecognized s.sources =
      (⟨.endOfInput, d.lexeme.toList, ⟨noSource, d.start.line, d.start.column⟩, d.faults⟩, []) := by
    rw [hsource, outcome, hc, hd]
  cases k with
  | zero =>
    rw [stream_zero, observe_eq, ho]
    exact ⟨rfl, hfaults⟩
  | succ k =>
    rw [stream_succ]
    exact stream_of_closed (by rw [sources_next, ho]) k

/-- From the first printed token on, or from a filler before it, each call shows one token. -/
theorem stream_of_layout {ts : List Token.Spelled} {bytes : List UInt8} (h : Layout ts bytes)
    (hsource : s.sources = [f]) (hs : f.Stands text (w ++ bytes)) (hsound : f.failure? = none)
    (hw : Cursor.Filler Byte.isSpace w) :
    (∀ k (hk : k < ts.length), (s.stream k).kind = ts[k].kind ∧
      (s.stream k).lexeme = ts[k].lexeme ∧ (s.stream k).diagnostics = []) ∧
      ∀ k, (s.stream (ts.length + k)).kind = .endOfInput ∧
        (s.stream (ts.length + k)).diagnostics = [] := by
  induction h generalizing s f w with
  | nil =>
    rw [List.append_nil] at hs
    refine ⟨by simp, fun k => ?_⟩
    rw [List.length_nil, Nat.zero_add]
    exact stream_of_end hsource hs hsound hw k
  | last t =>
    obtain ⟨hshows, g, v, hg, hgs, hgsound, hv⟩ := next_of_spells (t := t) (v := []) (r := [])
      hsource (by simpa using hs) hsound hw .nil (by simp [Cursor.Apart]) (by simp [Cursor.Bare])
      (by simp)
    rw [List.append_nil] at hgs
    constructor
    · intro k hk
      obtain rfl : k = 0 := by simpa using hk
      exact hshows
    · intro k
      rw [List.length_singleton, Nat.add_comm, stream_succ]
      exact stream_of_end hg hgs hgsound hv k
  | @cons t u ts v bytes hv hcomma h ih =>
    obtain ⟨b, r, rfl, hb, hbcomma⟩ := h.begins
    have hnot : t.kind = .quoted → (b :: r).head? ≠ some 0x2c := by
      intro hq hhead
      exact hcomma ⟨hq, hbcomma (by simpa using hhead)⟩
    obtain ⟨hshows, g, v', hg, hgs, hgsound, hv'⟩ := next_of_spells hsource hs hsound hw hv.filler
      (hv.apart _) hb.bare hnot
    obtain ⟨htokens, hend⟩ := ih hg hgs hgsound hv'
    constructor
    · rintro (_ | k) hk
      · exact hshows
      · exact htokens k (by simpa using hk)
    · intro k
      rw [List.length_cons, Nat.add_right_comm, stream_succ]
      exact hend k

/-- **Printed tokens are scanned back:** first each token with its lexeme, then the end of the
input, all without a diagnostic. -/
theorem scan_layout {ts : List Token.Spelled} {bytes : List UInt8} (h : Layout ts bytes)
    (preferences : ScanPreferences) (journal : Diagnostic.Journal) (name : String) :
    let s := ((new preferences journal).push (.ofBytes name bytes none)).2
    (List.range ts.length).map (fun k => ((s.stream k).kind, (s.stream k).lexeme)) =
        ts.map (fun t => (t.kind, t.lexeme)) ∧
      (∀ k, (s.stream (ts.length + k)).kind = .endOfInput) ∧
      ∀ k, (s.stream k).diagnostics = [] := by
  intro s
  have hsource : s.sources = [.ofBytes name bytes none] := by
    have hroom : (new preferences journal).depth < maxDepth := Nat.zero_lt_succ 14
    show (push _ _).2.sources = _
    rw [push_of_lt hroom, sources_suspend]
    rfl
  obtain ⟨htokens, hend⟩ := stream_of_layout (w := []) h hsource
    (Source.stands_ofBytes name bytes none) rfl .nil
  refine ⟨?_, fun k => (hend k).1, fun k => ?_⟩
  · refine List.ext_getElem (by simp) fun k hk hk' => ?_
    obtain ⟨hkind, hlexeme, -⟩ := htokens k (by simpa using hk')
    simp [hkind, hlexeme]
  · by_cases hk : k < ts.length
    · exact (htokens k hk).2.2
    · obtain ⟨j, rfl⟩ := Nat.exists_eq_add_of_le (Nat.le_of_not_lt hk)
      exact (hend j).2

/-- A reserved word, a string and a slash, with a comma in the comment before the last. -/
theorem scan_layout_string_slash :
    let r : Token.Spelled := ⟨.importWord, _, _, .word (w := "import") (Array.mem_toList_iff.1 (by decide))⟩
    let t : Token.Spelled := ⟨.quoted, _, [0x61], .quoted [0x61]⟩
    let u : Token.Spelled := ⟨.slash, _, _, .sign (w := "/") (by decide)⟩
    let bytes := r.text ++ ([0x09] ++ (t.text ++ ([0x20, 0x2f, 0x2a, 0x2c, 0x2a, 0x2f] ++ u.text)))
    let s := ((new default .empty).push (.ofBytes "a.g" bytes none)).2
    Layout [r, t, u] bytes ∧
      (List.range 3).map (fun k => ((s.stream k).kind, (s.stream k).lexeme)) =
        [(.importWord, Text.utf8 "import"), (.quoted, [0x61]), (.slash, Text.utf8 "/")] ∧
      (∀ k, (s.stream (3 + k)).kind = .endOfInput) ∧ ∀ k, (s.stream k).diagnostics = [] := by
  intro r t u bytes s
  have htab : Separator [0x09] := ⟨.byte (by decide) .nil, 0x09, _, rfl, by decide⟩
  have hcomment : Separator [0x20, 0x2f, 0x2a, 0x2c, 0x2a, 0x2f] :=
    ⟨.byte (by decide) (.block (v := [0x2c]) (by decide) .nil), 0x20, _, rfl, by decide⟩
  have h : Layout [r, t, u] bytes :=
    .cons htab (by decide) (.cons hcomment (by decide) (.last u))
  exact ⟨h, scan_layout h default .empty "a.g"⟩

end Scanner
end ClassIndex
