/-
# Scanning words

Where a source goes on with a letter or an underscore, a call takes the longest row of letters,
digits and underscores that it goes on with (`scan_word`). This row is the lexeme, and it is looked
up as a whole:

| source | word | kind |
| --- | --- | --- |
| `gte` | `gte` | that of the reserved word |
| `gt+e` | `gt` | that of the reserved word |
| `gte9`, `_gte`, `Gte` | the whole | a name |
-/

import ClassIndex.Proofs.Cursor.Spelled
import ClassIndex.Proofs.Scanner.Account
import ClassIndex.Proofs.Token.Numeral

namespace ClassIndex

open Token (IsReserved firstWord reserved searchWord)

namespace Cursor

variable {text r : List UInt8} {b : UInt8} {c : Cursor}

theorem inWord_of_beginsWord (hb : Byte.beginsWord b = true) : Byte.inWord b = true := by
  simp only [Byte.beginsWord, Byte.inWord, Bool.or_eq_true] at hb ⊢
  tauto

/-- A cursor has read a word of a source: it is kept, and what follows it is left. -/
structure HasWord (text w r : List UInt8) (c d : Cursor) : Prop where
  stands : d.source.Stands text r
  lexeme : d.lexeme.toList = w
  passes : c.Passes d

/-- A word is as long as letters, digits and underscores go on. -/
theorem word_of_stands (hb : Byte.beginsWord b = true) (h : c.source.Stands text r)
    (hl : c.lexeme.toList = []) :
    (c.word b).1 = Token.wordKind ((b :: r).takeWhile Byte.inWord) ∧
      HasWord text ((b :: r).takeWhile Byte.inWord) ((b :: r).dropWhile Byte.inWord) c
        (c.word b).2 := by
  have hin := inWord_of_beginsWord hb
  obtain ⟨hs, hlexeme, hpass⟩ := keepWhile_of_stands (c := c.keep b) Byte.inWord h
  have hword : (c.word b).2.lexeme.toList = (b :: r).takeWhile Byte.inWord := by
    rw [List.takeWhile_cons_of_pos hin]
    refine hlexeme.trans ?_
    rw [keep, Buffer.toList_push, hl]
    rfl
  refine ⟨congrArg Token.wordKind hword, ?_, hword, ?_⟩
  · rw [List.dropWhile_cons_of_pos hin]
    exact hs
  · have hkeep : c.Passes (c.keep b) := ⟨rfl, rfl, rfl, fun _ => rfl⟩
    exact hkeep.trans hpass

/-- Where a source goes on with a letter or an underscore, the next token is a word. -/
theorem token_of_letter (hb : Byte.beginsWord b = true) (h : c.source.Stands text (b :: r)) :
    ∃ d, c.token = (some (Token.wordKind ((b :: r).takeWhile Byte.inWord)), d) ∧
      HasWord text ((b :: r).takeWhile Byte.inWord) ((b :: r).dropWhile Byte.inWord) c d := by
  have hbegins : Begins b r := .of_class hb (by decide) (by decide) (by simp [unknown, hb]) r
  obtain ⟨d, hd, hs, hpass, hl, -⟩ := token_of_begins hbegins h
  obtain ⟨hkind, hword⟩ := word_of_stands hb hs hl
  refine ⟨(d.word b).2, ?_, hword.stands, hword.lexeme, hpass.trans hword.passes⟩
  rw [hd, piece_word hb, hkind]

end Cursor

namespace Scanner

variable {texts : List (String × List UInt8)} {s : Scanner} {f : Source} {outer : List Source}

/-- **Words are maximal, and reserved only as a whole.** Where a source goes on with a letter or an
underscore, a call takes the longest row of letters, digits and underscores: it is the lexeme, and
the source goes on behind it. The kind is the one that stands beside this row in the table of
reserved words, that of a name if the row is not in the table. And looking any row of bytes up by
halving the table comes to what going through it comes to. -/
theorem scan_word (h : Reached texts s) (hsource : s.sources = f :: outer)
    (hletter : f.rest.head?.any Byte.beginsWord = true) :
    (∃ w g, Longest (fun v => ∀ x ∈ v, Byte.inWord x = true) w g.rest ∧ f.HandsOut w g ∧
      s.next.2.sources = g :: outer ∧ s.next.2.lexeme.toList = w ∧
      (∀ v kind, (v, kind) ∈ reserved → Text.utf8 v = w → s.next.1 = kind) ∧
      (¬ IsReserved w → s.next.1 = .identifier) ∧
      (f.failure? = none → s.next.2.journal.diagnostics = s.journal.diagnostics)) ∧
    ∀ word, searchWord word 0 reserved.size = firstWord word := by
  refine ⟨?_, Token.searchWord_eq_firstWord⟩
  obtain ⟨b, r, hrest⟩ : ∃ b r, f.rest = b :: r := by
    cases hr : f.rest with
    | nil => rw [hr] at hletter; cases hletter
    | cons b r => exact ⟨b, r, rfl⟩
  rw [hrest] at hletter
  obtain ⟨text, hs⟩ := h.stands hsource
  rw [hrest] at hs
  obtain ⟨d, hd, hword⟩ :=
    Cursor.token_of_letter (c := freshCursor s.preferences.warnUnrecognized f) hletter hs
  have hshows := next_of_some hsource hd
  have hleft := hword.stands.left
  have hwhole : f.Stands text
      ((b :: r).takeWhile Byte.inWord ++ (b :: r).dropWhile Byte.inWord) := by
    rwa [List.takeWhile_append_dropWhile]
  refine ⟨(b :: r).takeWhile Byte.inWord, d.source, ?_, hwhole.handsOut hword.stands
    hword.passes.name, hshows.sources, hshows.lexeme.trans hword.lexeme, ?_, ?_, ?_⟩
  · rw [hleft]
    exact .run Byte.inWord (b :: r)
  · intro v kind hv hvw
    rw [hshows.kind, ← hvw]
    exact Token.wordKind_of_mem hv
  · intro hfree
    rw [hshows.kind]
    exact Token.wordKind_of_not_isReserved hfree
  · intro hsound
    rw [hshows.diagnostics, hword.passes.faults hsound]
    exact List.append_nil _

/-- Behind a sign, two reserved words that run into a digit are a name, and alone they are the
longer of the two. A byte above all letters ends either word. -/
theorem scan_word_prefixed :
    let bytes (word : List UInt8) := 0x3b :: (word ++ [0xe9, 0x61])
    let s (word : List UInt8) := (ofText "a.g" (bytes word) .empty).next.2
    let Shows (word : List UInt8) (kind : Token.Kind) := ∃ f g,
      Reached [("a.g", bytes word)] (s word) ∧ (s word).sources = [f] ∧
      f.rest.head?.any Byte.beginsWord = true ∧ f.HandsOut word g ∧
      (s word).next.2.sources = [g] ∧ (s word).next.1 = kind
    Shows [0x67, 0x74, 0x65, 0x39] .identifier ∧ Shows [0x67, 0x74, 0x65] .greaterEqual := by
  intro bytes s Shows
  have hscan (word : List UInt8) (kind : Token.Kind) (hletter : word.head?.any Byte.beginsWord = true)
      (hsources : (s word).sources.map (fun f => f.rest) = [word ++ [0xe9, 0x61]])
      (hlexeme : (s word).next.2.lexeme.toList = word)
      (hkind : kind = .identifier ∧ (∀ p ∈ reserved.toList, Text.utf8 p.1 ≠ word) ∨
        ∃ p ∈ reserved.toList, Text.utf8 p.1 = word ∧ p.2 = kind) : Shows word kind := by
    obtain ⟨f, hsource, hrest⟩ := List.map_eq_singleton_iff.1 hsources
    have hdepth : (s word).depth = 1 := by rw [depth, hsource, List.length_singleton]
    have hs : Reached [("a.g", bytes word)] (s word) := reached_next_ofText hdepth
    have hfirst : f.rest.head?.any Byte.beginsWord = true := by
      obtain ⟨b, hb, -⟩ := (Option.any_eq_true _ _).1 hletter
      rwa [hrest, List.head?_append, hb, Option.some_or, ← hb]
    obtain ⟨⟨w, g, -, hg, hleft, hw, hreserved, hname, -⟩, -⟩ := scan_word hs hsource hfirst
    obtain rfl : word = w := hlexeme.symm.trans hw
    refine ⟨f, g, hs, hsource, hfirst, hg, hleft, ?_⟩
    rcases hkind with ⟨rfl, hfree⟩ | ⟨⟨v, kind⟩, hp, hv, rfl⟩
    · refine hname ?_
      rintro ⟨v, kind, hv, hvw⟩
      exact hfree (v, kind) (Array.mem_toList_iff.2 hv) hvw
    · exact hreserved v kind (Array.mem_toList_iff.1 hp) hv
  obtain ⟨⟨hsources, hlexeme, hfree⟩, hsources', hlexeme', hreserved⟩ :
      ((s [0x67, 0x74, 0x65, 0x39]).sources.map (fun f => f.rest)
            = [[0x67, 0x74, 0x65, 0x39, 0xe9, 0x61]] ∧
          (s [0x67, 0x74, 0x65, 0x39]).next.2.lexeme.toList = [0x67, 0x74, 0x65, 0x39] ∧
          ∀ p ∈ reserved.toList, Text.utf8 p.1 ≠ [0x67, 0x74, 0x65, 0x39]) ∧
        (s [0x67, 0x74, 0x65]).sources.map (fun f => f.rest) = [[0x67, 0x74, 0x65, 0xe9, 0x61]] ∧
        (s [0x67, 0x74, 0x65]).next.2.lexeme.toList = [0x67, 0x74, 0x65] ∧
        ∃ p ∈ reserved.toList, Text.utf8 p.1 = [0x67, 0x74, 0x65] ∧ p.2 = .greaterEqual := by
    decide +kernel
  exact ⟨hscan _ _ rfl hsources hlexeme (.inl ⟨rfl, hfree⟩),
    hscan _ _ rfl hsources' hlexeme' (.inr hreserved)⟩

end Scanner
end ClassIndex
