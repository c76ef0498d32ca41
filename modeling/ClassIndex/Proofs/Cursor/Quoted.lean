/-
# Reading strings

A row of items between double quotes is read to what the items denote (`Clean.quoted`): each of
them is taken as a whole, since a digit more is either not allowed or does not follow. Behind its
closing quote the reader looks for a comma, over the blanks and comments that follow; what is no
comma is given back, the blanks and comments are not.
-/

import ClassIndex.Proofs.Cursor.Clean
import ClassIndex.Proofs.Token.Literal

namespace ClassIndex

namespace Cursor

/-- What is passed over is not kept. -/
theorem skipping_lexeme (l : Buffer) : Skipping (Same fun c => c.lexeme = l) where
  next := by
    rintro d _ ⟨rfl, hd⟩
    exact ⟨rfl, rfl, by simpa using hd⟩
  giveBack := by
    rintro d _ ⟨rfl, hd⟩
    exact ⟨rfl, by simpa using hd⟩
  giveBackTwo := by
    rintro d _ ⟨rfl, hd⟩ -
    exact ⟨rfl, by simpa using hd⟩
  report := by
    rintro d _ f - ⟨rfl, hd⟩
    exact ⟨rfl, hd⟩

@[simp] theorem lexeme_skipSpace (c : Cursor) : c.skipSpace.lexeme = c.lexeme :=
  ((skipping_lexeme c.lexeme).skipSpace ⟨rfl, rfl⟩).2

@[simp] theorem lexeme_skipLine (c : Cursor) : c.skipLine.lexeme = c.lexeme :=
  ((skipping_lexeme c.lexeme).skipLine ⟨rfl, rfl⟩).2

@[simp] theorem lexeme_skipBlock (c : Cursor) (star : Bool) :
    (c.skipBlock star).2.lexeme = c.lexeme :=
  ((skipping_lexeme c.lexeme).skipBlock star ⟨rfl, rfl⟩).2.2

section

variable {text r l : List UInt8} {b : UInt8} {c : Cursor}

/-! ## Blanks and comments -/

theorem Clean.skipSpace (h : Clean text r l c) :
    Clean text (r.dropWhile Byte.isSpace) l c.skipSpace :=
  h.of_passes c.passes_skipSpace (by simp) (stands_skipWhile Byte.isSpace h.stands)

theorem Clean.skipSpace_of_not (hb : Byte.isSpace b = false) (h : Clean text (b :: r) l c) :
    Clean text (b :: r) l c.skipSpace := by
  have := h.skipSpace
  rwa [List.dropWhile_cons_of_neg (by simp [hb])] at this

theorem Clean.giveBack_two (h : Clean text r l c) (hb : c.next.1 = some 0x2f) :
    Clean text r l ((c.next.2.next.2.giveBack c.next.2.next.1).giveBack c.next.1) :=
  h.of_passes (((c.passes_next.trans (passes_next _)).trans (passes_giveBack _ _)).trans
    (passes_giveBack _ _)) (by simp) (stands_giveBack_two h.stands hb)

/-- Where neither blanks nor a comment follow, nothing is passed over. -/
theorem Clean.skipTrivia_bare (h : Clean text r l c) (hr : Bare r) :
    Clean text r l c.skipTrivia := by
  rw [skipTrivia_eq]
  cases r with
  | nil =>
    obtain ⟨h₁, -, h₃⟩ := h.skipSpace.next
    rcases hd : c.skipSpace.next with ⟨x, d⟩
    rw [hd] at h₁ h₃
    obtain rfl : x = none := h₁
    exact h₃
  | cons b v =>
    obtain ⟨hspace, hcomment⟩ := hr b v rfl
    have h₁ := h.skipSpace_of_not hspace
    obtain ⟨d, hd, h₂, hback⟩ := h₁.next_cons
    rw [hd]
    by_cases hb : b = 0x2f
    · subst hb
      have htwo := h₁.giveBack_two (by rw [hd])
      obtain ⟨h₃, -, -⟩ := h₂.next
      rcases he : d.next with ⟨x, e⟩
      rw [he] at h₃
      simp only [hd, he] at htwo
      cases x with
      | none => simpa [he] using htwo
      | some b' =>
        have hline : b' ≠ 0x2f := fun hb' => (hcomment rfl).1 (by rw [← h₃, hb'])
        have hblock : b' ≠ 0x2a := fun hb' => (hcomment rfl).2 (by rw [← h₃, hb'])
        simpa [he, hline, hblock] using htwo
    · simpa [hb] using hback

/-- A comment that ends with its line is passed over. -/
theorem Clean.skipTrivia_line (h : Clean text (0x2f :: 0x2f :: r) l c) :
    ∃ d, c.skipTrivia = d.skipTrivia ∧ Clean text (afterLine r) l d := by
  obtain ⟨d, hd, h₁, -⟩ := (h.skipSpace_of_not (by decide)).next_cons
  obtain ⟨e, he, h₂, -⟩ := h₁.next_cons
  refine ⟨e.skipLine, ?_, h₂.of_passes e.passes_skipLine (by simp) (stands_skipLine h₂.stands)⟩
  rw [skipTrivia_eq, hd]
  simp only [if_true, he]

/-- What stands behind blanks and complete comments is passed over from there on. -/
theorem Clean.skipTrivia_filler {w : List UInt8} (hw : Filler Byte.isSpace w)
    (h : Clean text (w ++ r) l c) : ∃ d, c.skipTrivia = d.skipTrivia ∧ Clean text r l d := by
  induction hw generalizing c with
  | nil => exact ⟨c, rfl, h⟩
  | @byte b w hb _ ih =>
    obtain ⟨d, hd, hs, -⟩ := h.next_cons
    have hskip : c.skipSpace = d.skipSpace := by
      rw [Cursor.skipSpace, skipWhile_eq, hd]
      simp [hb, Cursor.skipSpace]
    rw [skipTrivia_eq, hskip, ← skipTrivia_eq]
    exact ih hs
  | @line v w hv _ ih =>
    have h₁ : Clean text (0x2f :: 0x2f :: (v ++ 0x0a :: (w ++ r))) l c := by simpa using h
    obtain ⟨d, hd, h₂⟩ := h₁.skipTrivia_line
    rw [afterLine_append hv] at h₂
    rw [hd]
    exact ih h₂
  | @block v w hv _ ih =>
    have h₁ : Clean text (0x2f :: 0x2a :: (v ++ 0x2a :: 0x2f :: (w ++ r))) l c := by
      simpa using h
    obtain ⟨d, hd, h₂, -⟩ := (h₁.skipSpace_of_not (by decide)).next_cons
    obtain ⟨e, he, h₃, -⟩ := h₂.next_cons
    have hafter : afterBlock false (v ++ 0x2a :: 0x2f :: (w ++ r)) = some (w ++ r) :=
      afterBlock_eq_some.2 ⟨v, rfl, hv⟩
    obtain ⟨hfound, hstands, hpass⟩ := skipBlock_of_stands false h₃.stands
    rw [hafter] at hfound hstands hpass
    have h₄ := h₃.of_passes (hpass rfl) (by simp) hstands
    have hblock : e.skipBlock false = (true, (e.skipBlock false).2) := Prod.ext hfound rfl
    rw [skipTrivia_eq, hd]
    simp only [if_true, he]
    rw [hblock]
    exact ih h₄

/-- Blanks and complete comments are passed over. -/
theorem Clean.skipTrivia {w : List UInt8} (hw : Filler Byte.isSpace w)
    (h : Clean text (w ++ r) l c) (hr : Bare r) : Clean text r l c.skipTrivia := by
  obtain ⟨d, hd, hs⟩ := h.skipTrivia_filler hw
  rw [hd]
  exact hs.skipTrivia_bare hr

/-- Where no comma follows the blanks and comments, a string does not go on. -/
theorem Clean.goesOn (hs : Clean text r l c.skipTrivia) (hcomma : r.head? ≠ some 0x2c)
    (quote : UInt8) : ∃ d, c.goesOn quote = (false, d) ∧ Clean text r l d := by
  obtain ⟨h₁, -, h₃⟩ := hs.next
  unfold Cursor.goesOn
  rcases hd : c.skipTrivia.next with ⟨_ | b, d⟩
  · rw [hd] at h₃
    exact ⟨d, rfl, h₃⟩
  · rw [hd] at h₁ h₃
    have hb : b ≠ 0x2c := fun hb => hcomma (by rw [← h₁, hb])
    simp only [hb, if_false]
    exact ⟨_, rfl, h₃⟩

/-! ## Escapes -/

/-- A row of digits is taken that is full, or that a byte follows which is no digit. -/
theorem Clean.digits {radix : Radix} {n : Nat} {ds : List (Digit radix.base)}
    (h : Clean text (ds.map Digit.byte ++ r) l c) (hfew : ds.length ≤ n)
    (hends : ds.length < n → ∀ d : Digit radix.base, r.head? ≠ some d.byte) :
    ∃ d, Cursor.digits radix n c = (ds.map Digit.byte, d) ∧ Clean text r l d := by
  induction ds generalizing n c with
  | nil =>
    cases n with
    | zero => exact ⟨c, rfl, h⟩
    | succ n =>
      obtain ⟨hhead, -, hback⟩ := h.next
      rw [List.map_nil, List.nil_append] at hhead hback
      rw [Cursor.digits]
      rcases hd : c.next with ⟨_ | b, d⟩
      · rw [hd] at hback
        exact ⟨d, rfl, hback⟩
      · rw [hd] at hhead hback
        have hb : radix.isDigit b = false := by
          rw [Bool.eq_false_iff]
          intro hdigit
          obtain ⟨x, rfl⟩ := Radix.exists_digit hdigit
          exact hends (Nat.zero_lt_succ n) x hhead.symm
        simp only [hb]
        exact ⟨_, rfl, hback⟩
  | cons x ds ih =>
    cases n with
    | zero => exact absurd hfew (Nat.not_succ_le_zero _)
    | succ n =>
      obtain ⟨d, hd, hs, -⟩ := h.next_cons
      obtain ⟨e, he, hse⟩ := ih hs (Nat.le_of_succ_le_succ hfew)
        fun hlt => hends (Nat.succ_lt_succ hlt)
      refine ⟨e, ?_, hse⟩
      simp only [Cursor.digits, hd, (Radix.digit_spec x).1, if_true, he, List.map_cons]

/-- A sign is told from the digits that follow. -/
theorem Clean.leadingSign {sign : Token.Sign} {x : Digit 10}
    (h : Clean text (sign.bytes ++ x.byte :: r) l c) :
    ∃ d, c.leadingSign = (decide (sign = .minus), d) ∧ Clean text (x.byte :: r) l d := by
  unfold Cursor.leadingSign
  cases sign with
  | none =>
    obtain ⟨d, hd, -, hback⟩ := h.next_cons
    have hdigit : Byte.isDigit x.byte = true := (Radix.digit_spec (r := .decimal) x).1
    have hplus : x.byte ≠ 0x2b := Byte.ne_of_class hdigit (by decide)
    have hminus : x.byte ≠ 0x2d := Byte.ne_of_class hdigit (by decide)
    simp only [hd, hplus, hminus, if_false]
    exact ⟨_, rfl, hback⟩
  | plus =>
    obtain ⟨d, hd, hs, -⟩ := h.next_cons
    simp only [hd]
    exact ⟨d, rfl, hs⟩
  | minus =>
    obtain ⟨d, hd, hs, -⟩ := h.next_cons
    simp only [hd]
    exact ⟨d, rfl, hs⟩

/-- A numeric escape is kept as what its digits denote, behind the sign that was read. -/
theorem Clean.numericEscape {radix : Radix} {negative : Bool} {ds : List (Digit radix.base)}
    {d : Cursor}
    (hsign : (if radix = .decimal then c.leadingSign else (false, c)) = (negative, d))
    (h : Clean text (ds.map Digit.byte ++ r) l d) (hsome : ds ≠ [])
    (hfew : ds.length ≤ radix.limit)
    (hends : ds.length < radix.limit → ∀ d : Digit radix.base, r.head? ≠ some d.byte) :
    Clean text r (l ++ radix.denoted negative (ds.map Digit.byte)) (c.numericEscape radix) := by
  obtain ⟨e, he, hse⟩ := h.digits hfew hends
  obtain ⟨x, xs, rfl⟩ := List.exists_cons_of_ne_nil hsome
  rw [List.map_cons] at he
  simp only [Cursor.numericEscape, hsign, he]
  exact hse.keepAll _

/-- Where no number opens, an escape is kept as one byte. -/
theorem escape_of_letter {d : Cursor} (hd : c.next = (some b, d)) (hb : b ∉ Token.numeralMarks) :
    c.escape = (true, d.keep (escapeLetter b)) := by
  simp only [Token.numeralMarks, List.mem_cons, List.not_mem_nil, or_false, not_or] at hb
  obtain ⟨hx, hX, hd', hD, hzero⟩ := hb
  simp only [Cursor.escape, hd, hx, hX, hd', hD, hzero, decide_false, Bool.or_self,
    Bool.false_eq_true, if_false]

/-- What stands after a backslash is kept as what the item denotes. -/
theorem Clean.escape {i : Token.Item} {v : List UInt8} (hi : i.bytes = 0x5c :: v)
    (hends : i.EndsBefore r.head?) (h : Clean text (v ++ r) l c) :
    ∃ d, c.escape = (true, d) ∧ Clean text r (l ++ i.denoted) d := by
  cases i with
  | raw b hb =>
    obtain rfl : b = 0x5c := (List.cons.inj hi).1
    exact absurd hb (by decide)
  | control letter b hb =>
    obtain rfl := (List.cons.inj hi).2
    obtain ⟨d, hd, hs, -⟩ := h.next_cons
    obtain ⟨hmark, hletter⟩ : letter ∉ Token.numeralMarks ∧ escapeLetter letter = b := by
      simp only [Token.controls, List.mem_cons, List.not_mem_nil, or_false, Prod.mk.injEq] at hb
      rcases hb with ⟨rfl, rfl⟩ | ⟨rfl, rfl⟩ | ⟨rfl, rfl⟩ | ⟨rfl, rfl⟩ | ⟨rfl, rfl⟩ | ⟨rfl, rfl⟩ <;>
        decide
    refine ⟨_, escape_of_letter hd hmark, ?_⟩
    rw [hletter]
    exact hs.keep b
  | hex capital digits hsome hfew =>
    obtain rfl := (List.cons.inj hi).2
    obtain ⟨d, hd, hs, -⟩ := h.next_cons
    refine ⟨d.numericEscape .hex, ?_, ?_⟩
    · rw [Cursor.escape, hd]
      cases capital <;> rfl
    · rw [Token.Item.denoted, ← Radix.denoted_hex hfew]
      exact .numericEscape rfl hs hsome hfew hends
  | decimal capital sign digits hsome hfew =>
    obtain rfl := (List.cons.inj hi).2
    obtain ⟨d, hd, hs, -⟩ := h.next_cons
    refine ⟨d.numericEscape .decimal, ?_, ?_⟩
    · rw [Cursor.escape, hd]
      cases capital <;> rfl
    · obtain ⟨x, xs, rfl⟩ := List.exists_cons_of_ne_nil hsome
      have hrow : Clean text (sign.bytes ++ x.byte :: (xs.map Digit.byte ++ r)) l d := by
        simpa using hs
      obtain ⟨e, he, hse⟩ := hrow.leadingSign
      have hsign : sign.apply (Digit.number (x :: xs)) =
          if decide (sign = .minus) then -(Digit.number (x :: xs) : Int)
          else Digit.number (x :: xs) := by
        cases sign <;> rfl
      rw [Token.Item.denoted, hsign, ← Radix.denoted_decimal]
      exact .numericEscape he hse hsome hfew hends
  | octal digits hsome hfew =>
    obtain rfl := (List.cons.inj hi).2
    obtain ⟨d, hd, hs, -⟩ := h.next_cons
    refine ⟨d.numericEscape .octal, ?_, ?_⟩
    · rw [Cursor.escape, hd]
      rfl
    · rw [Token.Item.denoted, ← Radix.denoted_octal]
      exact .numericEscape rfl hs hsome hfew hends
  | plain b hcontrol hmark =>
    obtain rfl := (List.cons.inj hi).2
    obtain ⟨d, hd, hs, -⟩ := h.next_cons
    have hletter : escapeLetter b = b := by
      simp only [Token.controls, List.map_cons, List.map_nil, List.mem_cons, List.not_mem_nil,
        or_false, not_or] at hcontrol
      simp only [escapeLetter, hcontrol, if_false]
    refine ⟨_, escape_of_letter hd hmark, ?_⟩
    rw [hletter]
    exact hs.keep b

/-- An item is taken as a whole. -/
theorem Clean.quoted_item {i : Token.Item} (hends : i.EndsBefore r.head?)
    (h : Clean text (i.bytes ++ r) l c) :
    ∃ d, c.quoted 0x22 = d.quoted 0x22 ∧ Clean text r (l ++ i.denoted) d := by
  -- every item but a raw byte opens with a backslash
  have hescape : ∀ {v}, i.bytes = 0x5c :: v →
      ∃ d, c.quoted 0x22 = d.quoted 0x22 ∧ Clean text r (l ++ i.denoted) d := by
    intro v hi
    rw [hi] at h
    obtain ⟨d, hd, hs, -⟩ := h.next_cons
    obtain ⟨e, he, hclean⟩ := Clean.escape hi hends hs
    refine ⟨e, ?_, hclean⟩
    rw [quoted_eq, hd]
    simp only [show (0x5c : UInt8) ≠ 0x0a by decide, show (0x5c : UInt8) ≠ 0x22 by decide,
      if_false, decide_true, Bool.and_true, if_true]
    rw [he]
  cases i with
  | raw b hb =>
    obtain ⟨d, hd, hs, -⟩ := h.next_cons
    simp only [List.mem_cons, List.not_mem_nil, or_false, not_or] at hb
    refine ⟨d.keep b, ?_, hs.keep b⟩
    rw [quoted_eq, hd]
    simp [hb]
  | _ => exact hescape rfl

/-- A row of items is taken up to the quote behind it. -/
theorem Clean.quoted_items {items : List Token.Item} (hspaced : Token.Spaced items)
    (h : Clean text (Token.body items ++ 0x22 :: r) l c) :
    ∃ d, c.quoted 0x22 = d.quoted 0x22 ∧
      Clean text (0x22 :: r) (l ++ items.flatMap Token.Item.denoted) d := by
  induction items generalizing c l with
  | nil => exact ⟨c, rfl, by simpa [Token.body] using h⟩
  | cons i items ih =>
    obtain ⟨hends, hspaced⟩ := hspaced
    have hhead : (Token.body items ++ [0x22]).head? = (Token.body items ++ 0x22 :: r).head? := by
      cases Token.body items <;> rfl
    rw [hhead] at hends
    rw [Token.body, List.flatMap_cons, List.append_assoc] at h
    obtain ⟨d, hd, hclean⟩ := h.quoted_item hends
    rw [hd, List.flatMap_cons, ← List.append_assoc]
    exact ih hspaced hclean

/-- At a quote of its style, a string ends or goes on. -/
theorem quoted_of_quote {quote : UInt8} {d : Cursor} (hquote : quote ≠ 0x0a)
    (hd : c.next = (some quote, d)) :
    c.quoted quote = match d.goesOn quote with
      | (true, e) => e.quoted quote
      | (false, e) => (.quoted, e) := by
  rw [quoted_eq, hd]
  exact (if_neg hquote).trans (if_pos rfl)

/-- **A row of items is read to what they denote.** -/
theorem Clean.quoted {items : List Token.Item} {w : List UInt8}
    (h : Clean text (Token.body items ++ 0x22 :: (w ++ r)) l c) (hspaced : Token.Spaced items)
    (hw : Filler Byte.isSpace w) (hr : Bare r) (hcomma : r.head? ≠ some 0x2c) :
    Gives text r (l ++ items.flatMap Token.Item.denoted) .quoted (c.quoted 0x22) := by
  obtain ⟨d, hd, hs⟩ := h.quoted_items hspaced
  obtain ⟨e, he, hse, -⟩ := hs.next_cons
  obtain ⟨f, hf, hsf⟩ := (hse.skipTrivia hw hr).goesOn hcomma 0x22
  rw [hd, quoted_of_quote (by decide) he, hf]
  exact ⟨rfl, hsf⟩

end

end Cursor
end ClassIndex
