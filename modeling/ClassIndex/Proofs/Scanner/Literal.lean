/-
# Scanning literals

A literal between double quotes that ends its source is scanned to one string, whose lexeme is
what the literal denotes, and nothing is reported (`scan_literal`). An octal item for each byte
makes a literal of every row of bytes.
-/

import ClassIndex.Proofs.Cursor.Spelled
import ClassIndex.Proofs.Scanner.Account

namespace ClassIndex
namespace Scanner

variable {texts : List (String × List UInt8)} {s : Scanner} {f : Source} {outer : List Source}

/-- Where a source goes on with a quote, the next token is a string. -/
theorem token_of_quote {text r : List UInt8} {quote : UInt8} (warns : Bool)
    (hquote : quote = 0x22 ∨ quote = 0x27) (hs : f.Stands text (quote :: r))
    (hsound : f.failure? = none) :
    ∃ d, (freshCursor warns f).token = (some (d.quoted quote).1, (d.quoted quote).2) ∧
      Cursor.Clean text r [] d := by
  have hb : Cursor.Begins quote r := by
    rcases hquote with rfl | rfl <;> exact .of_ne (by decide) (by decide) (by decide) _
  obtain ⟨d, hd, hclean⟩ := Cursor.token_piece (c := freshCursor warns f) hb hs hsound rfl
  exact ⟨d, hd.trans (Cursor.piece_quote hquote d), hclean⟩

/-- A literal that a source ends with is read as a whole. -/
theorem token_of_literal {text : List UInt8} {l : Token.Literal} (warns : Bool)
    (hs : f.Stands text l.bytes) (hsound : f.failure? = none) :
    ∃ d, (freshCursor warns f).token = (some .quoted, d) ∧ Cursor.Clean text [] l.value d := by
  obtain ⟨d, hd, hc⟩ := token_of_quote warns (.inl rfl) hs hsound
  rw [← List.append_nil [0x22], List.cons_append] at hc
  obtain ⟨hkind, hclean⟩ := hc.quoted l.spaced .nil (by simp [Cursor.Bare]) (by simp)
  exact ⟨(d.quoted 0x22).2, by rw [hd, hkind], hclean⟩

/-- A call on a source that a literal ends shows what the literal denotes. -/
theorem next_of_literal {text : List UInt8} {l : Token.Literal} (hsource : s.sources = f :: outer)
    (hs : f.Stands text l.bytes) (hsound : f.failure? = none) :
    s.next.1 = .quoted ∧ s.next.2.lexeme.toList = l.value ∧
      s.next.2.journal.diagnostics = s.journal.diagnostics ∧
      ∃ g, s.next.2.sources = g :: outer ∧ g.rest = [] := by
  obtain ⟨d, hd, hclean⟩ := token_of_literal s.preferences.warnUnrecognized hs hsound
  have hshows := next_of_some hsource hd
  refine ⟨hshows.kind, hshows.lexeme.trans hclean.lexeme, ?_, d.source, hshows.sources,
    hclean.stands.left⟩
  rw [hshows.diagnostics, hclean.faults, List.append_nil]

/-- **A literal is scanned to what it denotes,** wherever its source is read on to its end; and
every row of bytes is what some literal denotes. -/
theorem scan_literal (h : Reached texts s) (hsource : s.sources = f :: outer)
    (hsound : f.failure? = none) :
    (∀ l : Token.Literal, f.rest = l.bytes →
      s.next.1 = .quoted ∧ s.next.2.lexeme.toList = l.value ∧
        s.next.2.journal.diagnostics = s.journal.diagnostics ∧
        ∃ g, s.next.2.sources = g :: outer ∧ g.rest = []) ∧
      ∀ value : List UInt8, ∃ l : Token.Literal, ∀ name journal,
        (ofText name l.bytes journal).next.1 = .quoted ∧
          (ofText name l.bytes journal).next.2.lexeme.toList = value := by
  constructor
  · intro l hrest
    have hsounds := h.sound
    rw [hsource] at hsounds
    rcases hsounds with _ | ⟨⟨-, hs⟩, -⟩
    rw [hrest] at hs
    exact next_of_literal hsource hs hsound
  · intro value
    refine ⟨⟨value.map .ofByte, Token.spaced_map_ofByte value⟩, fun name journal => ?_⟩
    obtain ⟨hkind, hlexeme, -⟩ := next_of_literal (sources_push_new default journal _)
      (Source.stands_ofBytes name _ none) rfl
    exact ⟨hkind, hlexeme.trans (Token.flatMap_denoted_map_ofByte value)⟩

/-- Behind a word, a number below zero and an octal item that a further digit follows. -/
theorem scan_literal_negative :
    let l : Token.Literal :=
      ⟨[.decimal true .minus [⟨1, false⟩] (by simp) (by simp),
        .octal [⟨1, false⟩, ⟨0, false⟩, ⟨1, false⟩] (by simp) (by simp), .raw 0x37 (by decide)],
        by rintro - ⟨v, capital⟩; revert v capital; decide,
        fun h => absurd h (Nat.lt_irrefl 3), trivial, trivial⟩
    let bytes := 0x78 :: l.bytes
    let s := (ofText "a.g" bytes .empty).next.2
    ∃ f, Reached [("a.g", bytes)] s ∧ s.sources = [f] ∧ f.failure? = none ∧ f.rest = l.bytes ∧
      s.next.1 = .quoted ∧ s.next.2.lexeme.toList = [0xff, 0xff, 0xff, 0xff, 0x41, 0x37] := by
  intro l bytes s
  obtain ⟨hsources, hvalue⟩ :
      s.sources.map (fun f => (f.failure?, f.rest)) = [(none, l.bytes)] ∧
        l.value = [0xff, 0xff, 0xff, 0xff, 0x41, 0x37] := by
    decide +kernel
  obtain ⟨f, hsource, hf⟩ := List.map_eq_singleton_iff.1 hsources
  have hdepth : s.depth = 1 := by rw [depth, hsource, List.length_singleton]
  obtain ⟨hsound, hrest⟩ := Prod.mk.inj hf
  have hs : Reached [("a.g", bytes)] s := reached_next_ofText hdepth
  obtain ⟨hkind, hlexeme, -⟩ := (scan_literal hs hsource hsound).1 l hrest
  exact ⟨f, hs, hsource, hsound, hrest, hkind, hlexeme.trans hvalue⟩

end Scanner
end ClassIndex
