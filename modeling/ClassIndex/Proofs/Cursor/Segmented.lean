/-
# Strings without a fault are rows of segments

The bytes that a string takes are told from what its reader has met:

| the reader | the bytes |
| --- | --- |
| passes over trivia, and no fault is reported | blanks and complete comments, or a comment that its source ends |
| takes an escape, and no fault is reported | those of an item |
| goes on behind a quote | a comma between trivia, and a further quote |

So a string that is read without a fault is a row of segments that commas join, and trivia without
a comma behind it (`Clean.quoted_segmented`).
-/

import ClassIndex.Proofs.Cursor.Continuation

namespace ClassIndex
namespace Cursor

open Token (Item)

theorem report_ne_nil (c : Cursor) (f : Fault) : (c.report f).faults ≠ [] :=
  List.append_ne_nil_of_right_ne_nil _ (List.cons_ne_nil _ _)

/-- A fault that was reported stays reported. -/
theorem faulty_lockstep : Lockstep (Same fun c => c.faults ≠ []) :=
  Same.faults (· ≠ []) fun _ _ _ => List.append_ne_nil_of_right_ne_nil _ (List.cons_ne_nil _ _)

variable {text r l : List UInt8} {b quote : UInt8} {c d : Cursor}

/-- A byte that is read was left. -/
theorem Clean.next_some (h : Clean text r l c) (hc : c.next = (some b, d)) :
    ∃ r', r = b :: r' ∧ Clean text r' l d := by
  obtain ⟨hhead, hs, -⟩ := h.next
  rw [hc] at hhead hs
  obtain ⟨r', rfl⟩ := List.head?_eq_some_iff.1 hhead.symm
  exact ⟨r', rfl, hs⟩

/-! ## Trivia -/

/-- Bytes begin with trivia, or with blanks and comments before a block that has no end. -/
def Leading (r : List UInt8) : Prop :=
  (∃ w r', r = w ++ r' ∧ Trivia w r') ∨
    ∃ w v, r = w ++ 0x2f :: 0x2a :: v ∧ Filler Byte.isSpace w ∧ afterBlock false v = none

theorem Leading.of_bare (h : Bare r) : Leading r := .inl ⟨[], r, rfl, .filler .nil h⟩

/-- A blank or a comment may stand in front. -/
theorem Leading.front {p s : List UInt8}
    (hp : ∀ w, Filler Byte.isSpace w → Filler Byte.isSpace (p ++ w)) (h : Leading s) :
    Leading (p ++ s) := by
  rcases h with ⟨w, r', rfl, ht⟩ | ⟨w, v, rfl, hw, hv⟩
  · refine .inl ⟨p ++ w, r', (List.append_assoc ..).symm, ?_⟩
    cases ht with
    | filler hw hr' => exact .filler (hp w hw) hr'
    | line hw hv =>
      rw [← List.append_assoc]
      exact .line (hp _ hw) hv
  · exact .inr ⟨p ++ w, v, (List.append_assoc ..).symm, hp w hw, hv⟩

theorem leading (r : List UInt8) : Leading r := by
  -- a blank or a comment in front leaves less
  induction hn : r.length using Nat.strongRecOn generalizing r with
  | ind n ih =>
    subst hn
    have hfront (p s : List UInt8) (hr : r = p ++ s) (hne : p ≠ [])
        (hp : ∀ w, Filler Byte.isSpace w → Filler Byte.isSpace (p ++ w)) : Leading r := by
      have hlt : s.length < r.length := by
        have := List.length_pos_iff.2 hne
        rw [hr, List.length_append]
        omega
      rw [hr]
      exact .front hp (ih _ hlt s rfl)
    cases r with
    | nil => exact .of_bare bare_nil
    | cons b r =>
      rcases begins_cases b r with hspace | hunknown | ⟨rfl, r, rfl⟩ | ⟨rfl, r, rfl⟩ | hbegins
      · exact hfront [b] r rfl (List.cons_ne_nil _ _) fun w hw => .byte hspace hw
      · simp only [unknown, Bool.not_eq_true', Bool.or_eq_false_iff, beq_eq_false_iff_ne] at hunknown
        exact .of_bare (bare_cons hunknown.1.1.1.1.1.1 hunknown.1.1.1.2 r)
      · rcases afterLine_cases r with ⟨hno, -⟩ | ⟨u, hu, hr⟩
        · exact .inl ⟨_, [], (List.append_nil _).symm, .line .nil hno⟩
        · refine hfront (0x2f :: 0x2f :: (u ++ [0x0a])) (afterLine r) ?_ (List.cons_ne_nil _ _)
            fun w hw => ?_
          · simpa using hr
          · simpa using Filler.line hu hw
      · rcases hafter : afterBlock false r with _ | s
        · exact .inr ⟨[], r, rfl, .nil, hafter⟩
        · obtain ⟨u, hr, hu⟩ := afterBlock_eq_some.1 hafter
          refine hfront (0x2f :: 0x2a :: (u ++ [0x2a, 0x2f])) s ?_ (List.cons_ne_nil _ _)
            fun w hw => ?_
          · simpa using hr
          · simpa using Filler.block hu hw
      · exact .of_bare hbegins.bare

/-- A block that has no end is reported. -/
theorem skipBlock_faulty {star : Bool} (h : c.skipBlock star = (false, d)) : d.faults ≠ [] := by
  fun_induction Cursor.skipBlock star c with
  | case1 star c e hc ih => exact ih h
  | case2 star c b e hc => cases h
  | case3 star c b e hc _ _ ih => exact ih h
  | case4 star c e hc =>
    cases h
    exact report_ne_nil _ _

/-- A block that has no end takes all that is left, and is reported. -/
theorem Clean.skipTrivia_unended {w v : List UInt8} (hw : Filler Byte.isSpace w)
    (hv : afterBlock false v = none) (h : Clean text (w ++ 0x2f :: 0x2a :: v) l c) :
    c.skipTrivia.source.Stands text [] ∧ c.skipTrivia.faults ≠ [] := by
  obtain ⟨d, hd, hs⟩ := h.skipTrivia_filler hw
  obtain ⟨e, he, hse, -⟩ := (hs.skipSpace_of_not (by decide)).next_cons
  obtain ⟨f, hf, hsf, -⟩ := hse.next_cons
  obtain ⟨hfound, hstands, -⟩ := skipBlock_of_stands false hsf.stands
  rcases hblock : f.skipBlock false with ⟨found, g⟩
  rw [hblock, hv] at hfound hstands
  obtain rfl : found = false := hfound
  rw [hd, skipTrivia_eq, he]
  simp only [if_true, hf]
  rw [hblock]
  exact ⟨hstands, skipBlock_faulty hblock⟩

/-- A string that ends behind a quote without a fault ends with trivia that no comma follows. -/
theorem Clean.goesOn_ended (h : Clean text r l c) (hgoes : c.goesOn quote = (false, d))
    (hfaults : d.faults = []) :
    ∃ w r', r = w ++ r' ∧ Trivia w r' ∧ r'.head? ≠ some 0x2c := by
  rcases leading r with ⟨w, r', rfl, ht⟩ | ⟨w, v, rfl, hw, hv⟩
  · refine ⟨w, r', rfl, ht, fun hcomma => ?_⟩
    obtain ⟨v, rfl⟩ := List.head?_eq_some_iff.1 hcomma
    obtain ⟨e, he, -, -⟩ := (h.skipTrivia_trivia ht).next_cons
    -- behind a comma the string goes on, or there is a fault
    rw [Cursor.goesOn, he] at hgoes
    simp only [if_true] at hgoes
    split at hgoes
    · split at hgoes
      · cases hgoes
      · cases hgoes
        exact absurd hfaults (report_ne_nil _ _)
    · cases hgoes
      exact absurd hfaults (report_ne_nil _ _)
  · obtain ⟨hstands, hfaulty⟩ := h.skipTrivia_unended hw hv
    obtain ⟨e, he, -⟩ := next_nil hstands
    have hfaulty' := (faulty_lockstep.next ⟨rfl, hfaulty⟩).2.2
    rw [Cursor.goesOn, he] at hgoes
    rw [he] at hfaulty'
    cases hgoes
    exact absurd hfaults hfaulty'

/-- Trivia that something follows is blanks and complete comments. -/
theorem Trivia.filler_of_cons {w : List UInt8} (h : Trivia w (b :: r)) : Filler Byte.isSpace w := by
  cases h with
  | filler hw _ => exact hw

/-- A string goes on behind a comma and a quote only. -/
theorem Clean.goesOn_joined (hquote : quote = 0x22 ∨ quote = 0x27) (h : Clean text r l c)
    (hgoes : c.goesOn quote = (true, d)) :
    ∃ w w' r', r = w ++ 0x2c :: (w' ++ quote :: r') ∧ Filler Byte.isSpace w ∧
      Filler Byte.isSpace w' ∧ Clean text r' l d := by
  rcases leading r with ⟨w, r', rfl, ht⟩ | ⟨w, v, rfl, hw, hv⟩
  · by_cases hcomma : r'.head? = some 0x2c
    · obtain ⟨v, rfl⟩ := List.head?_eq_some_iff.1 hcomma
      have hw := ht.filler_of_cons
      rcases leading v with ⟨w', r', rfl, ht'⟩ | ⟨w', u, rfl, hw', hu⟩
      · by_cases hhead : r'.head? = some quote
        · obtain ⟨v, rfl⟩ := List.head?_eq_some_iff.1 hhead
          have hw' := ht'.filler_of_cons
          obtain ⟨e, he, hs⟩ := h.goesOn_more hw hw' hquote
          cases he.symm.trans hgoes
          exact ⟨w, w', v, rfl, hw, hw', hs⟩
        · obtain ⟨e, he, -⟩ := h.goesOn_bad hw ht' hhead
          cases he.symm.trans hgoes
      · -- the second comment has no end
        obtain ⟨e, he, hs, -⟩ := (h.skipTrivia_trivia ht).next_cons
        obtain ⟨f, hf, -⟩ := next_nil (hs.skipTrivia_unended hw' hu).1
        rw [Cursor.goesOn, he] at hgoes
        simp only [if_true, hf] at hgoes
        cases hgoes
    · obtain ⟨e, he, -⟩ := (h.skipTrivia_trivia ht).goesOn hcomma quote
      cases he.symm.trans hgoes
  · obtain ⟨e, he, -⟩ := next_nil (h.skipTrivia_unended hw hv).1
    rw [Cursor.goesOn, he] at hgoes
    cases hgoes

/-! ## Escapes -/

/-- Bytes begin with a row of digits, as long as it may be. -/
theorem exists_digits (radix : Radix) (n : Nat) (r : List UInt8) :
    ∃ (ds : List (Digit radix.base)) (r' : List UInt8), r = ds.map Digit.byte ++ r' ∧
      ds.length ≤ n ∧ (ds.length < n → ∀ d : Digit radix.base, r'.head? ≠ some d.byte) := by
  induction n generalizing r with
  | zero => exact ⟨[], r, rfl, Nat.le_refl 0, fun h => absurd h (Nat.lt_irrefl 0)⟩
  | succ n ih =>
    by_cases hdigit : ∃ d : Digit radix.base, r.head? = some d.byte
    · obtain ⟨d, hd⟩ := hdigit
      obtain ⟨r, rfl⟩ := List.head?_eq_some_iff.1 hd
      obtain ⟨ds, r', rfl, hfew, hends⟩ := ih r
      exact ⟨d :: ds, r', rfl, Nat.succ_le_succ hfew,
        fun hlt => hends (Nat.lt_of_succ_lt_succ hlt)⟩
    · exact ⟨[], r, rfl, Nat.zero_le _, fun _ d hd => hdigit ⟨d, hd⟩⟩

/-- A sign is there, or none. -/
theorem Clean.leadingSign_cases (h : Clean text r l c) :
    ∃ (sign : Token.Sign) (r' : List UInt8) (d : Cursor), r = sign.bytes ++ r' ∧
      c.leadingSign = (decide (sign = .minus), d) ∧ Clean text r' l d := by
  unfold Cursor.leadingSign
  obtain ⟨hhead, hs, hback⟩ := h.next
  rcases hd : c.next with ⟨_ | b, d⟩
  all_goals rw [hd] at hhead hs hback
  · exact ⟨.none, r, d, rfl, rfl, hback⟩
  · obtain ⟨r, rfl⟩ := List.head?_eq_some_iff.1 hhead.symm
    by_cases hplus : b = 0x2b
    · subst hplus
      exact ⟨.plus, r, d, rfl, rfl, hs⟩
    · by_cases hminus : b = 0x2d
      · subst hminus
        exact ⟨.minus, r, d, rfl, rfl, hs⟩
      · simp only [hplus, hminus, if_false]
        exact ⟨.none, b :: r, _, rfl, rfl, hback⟩

/-- A numeric escape without a fault has digits. -/
theorem Clean.numericEscape_digits {radix : Radix} {negative : Bool} (h : Clean text r l d)
    (hfaults : (c.numericEscape radix).faults = [])
    (hsign : (if radix = .decimal then c.leadingSign else (false, c)) = (negative, d)) :
    ∃ (ds : List (Digit radix.base)) (r' : List UInt8), r = ds.map Digit.byte ++ r' ∧ ds ≠ [] ∧
      ds.length ≤ radix.limit ∧
      (ds.length < radix.limit → ∀ d : Digit radix.base, r'.head? ≠ some d.byte) := by
  obtain ⟨ds, r', rfl, hfew, hends⟩ := exists_digits radix radix.limit r
  refine ⟨ds, r', rfl, ?_, hfew, hends⟩
  rintro rfl
  obtain ⟨e, he, -⟩ := h.digits hfew hends
  rw [List.map_nil] at he
  simp only [Cursor.numericEscape, hsign, he] at hfaults
  exact report_ne_nil _ _ hfaults

/-- **An escape without a fault is that of an item.** -/
theorem Clean.escape_item (h : Clean text r l c) (hescape : c.escape = (true, d))
    (hfaults : d.faults = []) :
    ∃ (i : Item) (v r' : List UInt8), i.bytes = 0x5c :: v ∧ r = v ++ r' ∧
      i.EndsBefore r'.head? := by
  unfold Cursor.escape at hescape
  rcases he : c.next with ⟨_ | b, e⟩
  all_goals
    rw [he] at hescape
    dsimp only at hescape
  · cases hescape
  · obtain ⟨r, rfl, hs⟩ := h.next_some he
    obtain rfl : _ = d := (Prod.mk.inj hescape).2
    split at hfaults
    · rename_i hmark
      obtain ⟨ds, r', rfl, hsome, hfew, hends⟩ := hs.numericEscape_digits hfaults rfl
      simp only [Bool.or_eq_true, decide_eq_true_eq] at hmark
      rcases hmark with rfl | rfl
      · exact ⟨.hex false ds hsome hfew, _, r', rfl, rfl, hends⟩
      · exact ⟨.hex true ds hsome hfew, _, r', rfl, rfl, hends⟩
    · split at hfaults
      · rename_i hmark
        obtain ⟨sign, r', f, rfl, hsign, hs⟩ := hs.leadingSign_cases
        obtain ⟨ds, r', rfl, hsome, hfew, hends⟩ := hs.numericEscape_digits hfaults hsign
        simp only [Bool.or_eq_true, decide_eq_true_eq] at hmark
        rcases hmark with rfl | rfl
        · exact ⟨.decimal false sign ds hsome hfew, _, r', rfl,
            congrArg (List.cons _) (List.append_assoc ..).symm, hends⟩
        · exact ⟨.decimal true sign ds hsome hfew, _, r', rfl,
            congrArg (List.cons _) (List.append_assoc ..).symm, hends⟩
      · split at hfaults
        · rename_i hmark
          obtain ⟨ds, r', rfl, hsome, hfew, hends⟩ := hs.numericEscape_digits hfaults rfl
          subst hmark
          exact ⟨.octal ds hsome hfew, _, r', rfl, rfl, hends⟩
        · rename_i hhex hdecimal hoctal
          by_cases hcontrol : b ∈ Token.controls.map Prod.fst
          · obtain ⟨⟨letter, b'⟩, hmem, rfl⟩ := List.mem_map.1 hcontrol
            exact ⟨.control letter b' hmem, [letter], r, rfl, rfl, trivial⟩
          · refine ⟨.plain b hcontrol ?_, [b], r, rfl, rfl, trivial⟩
            simp only [Bool.or_eq_true, decide_eq_true_eq, not_or] at hhex hdecimal
            simp only [Token.numeralMarks, List.mem_cons, List.not_mem_nil, or_false, not_or]
            exact ⟨hhex.1, hhex.2, hdecimal.1, hdecimal.2, hoctal⟩

/-! ## Segments -/

/-- An item may stand in front of a segment between double quotes. -/
theorem Segment.item {i : Item} {body value : List UInt8} (h : Segment 0x22 body value)
    (hends : i.EndsBefore (body ++ [0x22]).head?) :
    Segment 0x22 (i.bytes ++ body) (i.denoted ++ value) := by
  generalize hquote : (0x22 : UInt8) = quote at h
  cases h with
  | raw => exact absurd hquote (by decide)
  | @items items hspaced => exact .items (show Token.Spaced (i :: items) from ⟨hends, hspaced⟩)

/-- A byte may stand in front of a segment between single quotes. -/
theorem Segment.byte {body value : List UInt8} (h : Segment 0x27 body value)
    (hb : b ≠ 0x27 ∧ b ≠ 0x0a) : Segment 0x27 (b :: body) (b :: value) := by
  generalize hquote : (0x27 : UInt8) = quote at h
  cases h with
  | raw hbody => exact .raw (List.forall_mem_cons.2 ⟨hb, hbody⟩)
  | items => exact absurd hquote (by decide)

/-- What may stand in front of a segment may stand in front of a row of them. -/
theorem Segments.front {bytes value p v : List UInt8} (h : Segments quote bytes value)
    (hp : ∀ body value, (body ++ [quote]).head? = bytes.head? → Segment quote body value →
      Segment quote (p ++ body) (v ++ value)) : Segments quote (p ++ bytes) (v ++ value) := by
  have hhead (body r : List UInt8) : (body ++ [quote]).head? = (body ++ quote :: r).head? := by
    cases body <;> rfl
  cases h with
  | last h =>
    rw [← List.append_assoc]
    exact .last (hp _ _ rfl h)
  | more h hw hw' hrest =>
    rw [← List.append_assoc, ← List.append_assoc]
    exact .more (hp _ _ (hhead ..) h) hw hw' hrest

theorem Segments.head_append {bytes value : List UInt8} (h : Segments quote bytes value)
    (r : List UInt8) : (bytes ++ r).head? = bytes.head? := by
  have hne : bytes ≠ [] := by cases h <;> simp
  rw [List.head?_append_of_ne_nil _ hne]

/-- **A string that is read without a fault is a row of segments,** with trivia behind it and no
comma behind that. -/
theorem Clean.quoted_segmented (hquote : quote = 0x22 ∨ quote = 0x27) (h : Clean text r l c)
    (hkind : (c.quoted quote).1 = .quoted) (hfaults : (c.quoted quote).2.faults = []) :
    ∃ bytes value w r', r = bytes ++ (w ++ r') ∧ Segments quote bytes value ∧ Trivia w r' ∧
      r'.head? ≠ some 0x2c := by
  have hempty : Segment quote [] [] := by
    rcases hquote with rfl | rfl
    · exact .items (show Token.Spaced [] from trivial)
    · exact .raw (List.forall_mem_nil _)
  fun_induction Cursor.quoted quote c generalizing r l with
  | case1 c d hc => cases hkind
  | case2 c d e he hc _ ih =>
    obtain ⟨r, rfl, hs⟩ := h.next_some hc
    obtain ⟨w, w', r', rfl, hw, hw', hs⟩ := hs.goesOn_joined hquote he
    obtain ⟨bytes, value, v, r', rfl, hsegs, hrest⟩ := ih hs hkind hfaults
    exact ⟨_, _, v, r', by simp, .more hempty hw hw' hsegs, hrest⟩
  | case3 c d e he hc =>
    obtain ⟨r, rfl, hs⟩ := h.next_some hc
    obtain ⟨w, r', rfl, hrest⟩ := hs.goesOn_ended he hfaults
    exact ⟨_, _, w, r', rfl, .last hempty, hrest⟩
  | case4 c b d hc _ _ hescape e he ih =>
    simp only [Bool.and_eq_true, decide_eq_true_eq] at hescape
    obtain ⟨rfl, rfl⟩ := hescape
    obtain ⟨r, rfl, hs⟩ := h.next_some hc
    have hnone : e.faults = [] := by
      by_contra hfaulty
      exact (faulty_lockstep.quoted 0x22 ⟨rfl, hfaulty⟩).2.2 hfaults
    obtain ⟨i, v, r, hi, rfl, hends⟩ := hs.escape_item he hnone
    obtain ⟨e', he', hs'⟩ := hs.escape hi hends
    cases he'.symm.trans he
    obtain ⟨bytes, value, w, r', rfl, hsegs, hrest⟩ := ih hs' hkind hfaults
    rw [hsegs.head_append] at hends
    refine ⟨_, _, w, r', ?_, hsegs.front (p := i.bytes) (v := i.denoted) ?_, hrest⟩
    · rw [hi]
      simp
    · intro body value hhead hseg
      exact hseg.item (hhead ▸ hends)
  | case5 c b d hc _ _ _ e he => cases hkind
  | case6 c b d hc hline hne hescape ih =>
    obtain ⟨r, rfl, hs⟩ := h.next_some hc
    obtain ⟨bytes, value, w, r', rfl, hsegs, hrest⟩ := ih (hs.keep b) hkind hfaults
    refine ⟨_, _, w, r', rfl, hsegs.front (p := [b]) (v := [b]) ?_, hrest⟩
    intro body value hhead hseg
    rcases hquote with rfl | rfl
    · have hback : b ≠ 0x5c := fun hb => hescape (by simp [hb])
      have hraw : b ∉ [0x22, 0x5c, 0x0a] := by simp [hne, hback, hline]
      exact hseg.item (i := .raw b hraw) trivial
    · exact hseg.byte ⟨hne, hline⟩
  | case7 c d hc => cases hkind

end Cursor
end ClassIndex
