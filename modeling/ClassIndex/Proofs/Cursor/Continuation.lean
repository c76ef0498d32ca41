/-
# Strings of several segments

A string is a row of segments of one style. Behind each closing quote the reader looks for a comma,
and behind the comma for a further opening quote, over blanks and comments on either side of it:

| behind the closing quote | behind the comma | the string |
| --- | --- | --- |
| no comma | | ends, and what stands there is given back |
| a comma | a quote of the style | goes on with a further segment |
| a comma | any other byte, or nothing | ends, a fault is reported, and what stands there is given back |

So the segments that commas join are read to what they denote, one after the other
(`Clean.quoted_segments`).
-/

import ClassIndex.Proofs.Cursor.Quoted

namespace ClassIndex
namespace Cursor

/-- Trivia that ends where `r` is left. A comment that ends with its line may end with the source
too. -/
inductive Trivia : List UInt8 → List UInt8 → Prop where
  | filler {w r : List UInt8} (hw : Filler Byte.isSpace w) (hr : Bare r) : Trivia w r
  | line {w v : List UInt8} (hw : Filler Byte.isSpace w) (hv : 0x0a ∉ v) :
    Trivia (w ++ 0x2f :: 0x2f :: v) []

/-- What stands between two quotes of a style, and what it denotes. -/
inductive Segment : UInt8 → List UInt8 → List UInt8 → Prop where
  | raw {body : List UInt8} (h : ∀ b ∈ body, b ≠ 0x27 ∧ b ≠ 0x0a) : Segment 0x27 body body
  | items {items : List Token.Item} (h : Token.Spaced items) :
    Segment 0x22 (Token.body items) (items.flatMap Token.Item.denoted)

/-- Segments of a style that commas join, from behind the first quote up to the last, and what they
denote. -/
inductive Segments (quote : UInt8) : List UInt8 → List UInt8 → Prop where
  | last {body value : List UInt8} (h : Segment quote body value) :
    Segments quote (body ++ [quote]) value
  | more {body value w w' rest value' : List UInt8} (h : Segment quote body value)
    (hw : Filler Byte.isSpace w) (hw' : Filler Byte.isSpace w')
    (hrest : Segments quote rest value') :
    Segments quote (body ++ quote :: (w ++ 0x2c :: (w' ++ quote :: rest))) (value ++ value')

section

variable {text r l w bytes value : List UInt8} {b quote : UInt8} {c d : Cursor}

/-- What trivia leaves begins with neither a blank nor a comment. -/
theorem Trivia.bare (h : Trivia w r) : Bare r := by
  cases h with
  | filler _ hr => exact hr
  | line => exact bare_nil

/-- A segment stands between single or double quotes. -/
theorem Segment.quote_eq (h : Segment quote bytes value) : quote = 0x22 ∨ quote = 0x27 := by
  cases h with
  | raw => exact .inr rfl
  | items => exact .inl rfl

theorem Segments.quote_eq (h : Segments quote bytes value) : quote = 0x22 ∨ quote = 0x27 := by
  cases h with
  | last h => exact h.quote_eq
  | more h => exact h.quote_eq

/-! ## Looking behind a quote -/

/-- Trivia is passed over. -/
theorem Clean.skipTrivia_trivia (ht : Trivia w r) (h : Clean text (w ++ r) l c) :
    Clean text r l c.skipTrivia := by
  cases ht with
  | filler hw hr => exact h.skipTrivia hw hr
  | @line w v hw hv =>
    rw [List.append_nil] at h
    obtain ⟨d, hd, hs⟩ := h.skipTrivia_filler hw
    obtain ⟨e, he, hse⟩ := hs.skipTrivia_line
    have hend : afterLine v = [] := by
      rw [afterLine, List.dropWhile_eq_nil_iff.2, List.tail_nil]
      exact fun b hb => by simpa using ne_of_mem_of_not_mem hb hv
    rw [hd, he]
    rw [hend] at hse
    exact hse.skipTrivia_bare bare_nil

/-- Where a comma and a further quote follow, a string goes on. -/
theorem Clean.goesOn_more {w' : List UInt8} (hw : Filler Byte.isSpace w)
    (hw' : Filler Byte.isSpace w') (hquote : quote = 0x22 ∨ quote = 0x27)
    (h : Clean text (w ++ 0x2c :: (w' ++ quote :: r)) l c) :
    ∃ d, c.goesOn quote = (true, d) ∧ Clean text r l d := by
  have hspace : Byte.isSpace quote = false := by rcases hquote with rfl | rfl <;> decide
  have hslash : quote ≠ 0x2f := by rcases hquote with rfl | rfl <;> decide
  obtain ⟨d, hd, hs, -⟩ := (h.skipTrivia hw (bare_cons (by decide) (by decide) _)).next_cons
  obtain ⟨e, he, hse, -⟩ := (hs.skipTrivia hw' (bare_cons hspace hslash r)).next_cons
  refine ⟨e, ?_, hse⟩
  rw [Cursor.goesOn, hd]
  simp only [if_true, he]

/-- Where a comma follows, and no further quote behind it, a string ends with a fault. -/
theorem Clean.goesOn_bad {w' : List UInt8} (hw : Filler Byte.isSpace w) (ht : Trivia w' r)
    (hhead : r.head? ≠ some quote) (h : Clean text (w ++ 0x2c :: (w' ++ r)) l c) :
    ∃ d, c.goesOn quote = (false, d.report .badContinuation) ∧ Clean text r l d := by
  obtain ⟨d, hd, hs, -⟩ := (h.skipTrivia hw (bare_cons (by decide) (by decide) _)).next_cons
  obtain ⟨hnext, -, hback⟩ := (hs.skipTrivia_trivia ht).next
  rw [Cursor.goesOn, hd]
  simp only [if_true]
  rcases he : d.skipTrivia.next with ⟨_ | b, e⟩
  · rw [he] at hback
    exact ⟨e, rfl, hback⟩
  · rw [he] at hnext hback
    have hb : b ≠ quote := fun hb => hhead (by rw [← hnext, hb])
    simp only [hb, if_false]
    exact ⟨_, rfl, hback⟩

/-! ## Reading segments -/

/-- Between single quotes every byte is kept as it is. -/
theorem Clean.quoted_raw (hbytes : ∀ b ∈ bytes, b ≠ 0x27 ∧ b ≠ 0x0a)
    (h : Clean text (bytes ++ r) l c) :
    ∃ d, c.quoted 0x27 = d.quoted 0x27 ∧ Clean text r (l ++ bytes) d := by
  induction bytes generalizing c l with
  | nil => exact ⟨c, rfl, by simpa using h⟩
  | cons b bytes ih =>
    obtain ⟨⟨hquote, hline⟩, hbytes⟩ := List.forall_mem_cons.1 hbytes
    obtain ⟨d, hd, hs, -⟩ := h.next_cons
    obtain ⟨e, he, hse⟩ := ih hbytes (hs.keep b)
    refine ⟨e, ?_, by simpa using hse⟩
    rw [quoted_eq, hd, ← he]
    simp [hquote, hline]

/-- A segment is taken up to the quote behind it. -/
theorem Clean.quoted_segment (hseg : Segment quote bytes value)
    (h : Clean text (bytes ++ quote :: r) l c) :
    ∃ d, c.quoted quote = d.quoted quote ∧ Clean text (quote :: r) (l ++ value) d := by
  cases hseg with
  | raw hbytes => exact h.quoted_raw hbytes
  | items hspaced => exact h.quoted_items hspaced

/-- **Segments that commas join are read to what they denote,** up to the last quote. -/
theorem Clean.quoted_segments (hsegs : Segments quote bytes value)
    (h : Clean text (bytes ++ r) l c) :
    ∃ d e : Cursor, d.next = (some quote, e) ∧ c.quoted quote = d.quoted quote ∧
      Clean text r (l ++ value) e := by
  induction hsegs generalizing c l with
  | last hseg =>
    rw [List.append_assoc, List.singleton_append] at h
    obtain ⟨d, hd, hs⟩ := h.quoted_segment hseg
    obtain ⟨e, he, hse, -⟩ := hs.next_cons
    exact ⟨d, e, he, hd, hse⟩
  | @more body value w w' rest value' hseg hw hw' _ ih =>
    have hquote : quote ≠ 0x0a := by rcases hseg.quote_eq with rfl | rfl <;> decide
    rw [List.append_assoc, List.cons_append, List.append_assoc, List.cons_append,
      List.append_assoc, List.cons_append] at h
    obtain ⟨d, hd, hs⟩ := h.quoted_segment hseg
    obtain ⟨e, he, hse, -⟩ := hs.next_cons
    obtain ⟨f, hf, hsf⟩ := hse.goesOn_more hw hw' hseg.quote_eq
    obtain ⟨g, k, hg, hk, hsk⟩ := ih hsf
    refine ⟨g, k, hg, ?_, by rwa [← List.append_assoc]⟩
    rw [hd, quoted_of_quote hquote he, hf]
    exact hk

end

end Cursor
end ClassIndex
