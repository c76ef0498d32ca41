/-
# Where a token begins

Before the byte that it begins with, a token passes over blanks, complete comments and unknown
bytes, and over nothing else (`token_cases`). So its start is the place of that byte:

| what is left | what a token is read from |
| --- | --- |
| a blank, an unknown byte | what follows it |
| a comment with an end | what follows its end |
| a comment without one | nothing |
| a byte that begins a token | this byte, where the token starts |
-/

import ClassIndex.Proofs.Cursor.Account
import ClassIndex.Proofs.Cursor.Sign

namespace ClassIndex
namespace Cursor

/-- A byte that is passed over where no comment begins. -/
def isPassed (b : UInt8) : Bool := Byte.isSpace b || unknown b

/-- A byte is passed over, opens a comment, or begins a token. -/
theorem begins_cases (b : UInt8) (r : List UInt8) :
    Byte.isSpace b = true ∨ unknown b = true ∨ (b = 0x2f ∧ ∃ r', r = 0x2f :: r') ∨
      (b = 0x2f ∧ ∃ r', r = 0x2a :: r') ∨ Begins b r := by
  by_cases hspace : Byte.isSpace b = true
  · exact .inl hspace
  · by_cases hunknown : unknown b = true
    · exact .inr (.inl hunknown)
    · by_cases hline : b = 0x2f ∧ r.head? = some 0x2f
      · exact .inr (.inr (.inl ⟨hline.1, List.head?_eq_some_iff.1 hline.2⟩))
      · by_cases hblock : b = 0x2f ∧ r.head? = some 0x2a
        · exact .inr (.inr (.inr (.inl ⟨hblock.1, List.head?_eq_some_iff.1 hblock.2⟩)))
        · refine .inr (.inr (.inr (.inr ⟨by simpa using hspace, by simpa using hunknown, ?_, ?_⟩)))
          · exact fun hb hr => hline ⟨hb, hr⟩
          · exact fun hb hr => hblock ⟨hb, hr⟩

/-- An unknown byte is passed over, perhaps with a warning. -/
theorem piece_of_unknown {b : UInt8} (hb : unknown b = true) (c : Cursor) :
    c.piece b = (none, ((c.keep b).forget).warnOf b) := by
  simp only [unknown, Bool.not_eq_true', Bool.or_eq_false_iff, beq_eq_false_iff_ne,
    Option.isSome_eq_false_iff, Option.isNone_iff_eq_none] at hb
  obtain ⟨⟨⟨⟨⟨⟨-, h₁⟩, h₂⟩, h₃⟩, h₄⟩, h₅⟩, h₆⟩ := hb
  simp only [piece, h₁, h₂, h₃, h₄, h₅, punctuation, h₆]
  rfl

/-! ## What a first byte begins -/

/-- A token begins with a quote, a slash, a digit, a letter or underscore, or a sign. -/
theorem Begins.cases {b : UInt8} {r : List UInt8} (h : Begins b r) :
    (b = 0x22 ∨ b = 0x27) ∨ b = 0x2f ∨ Byte.isDigit b = true ∨ Byte.beginsWord b = true ∨
      ∃ kind, single? b = some kind := by
  have hknown := h.known
  have hspace := h.space
  simp only [unknown, Bool.not_eq_false', Bool.or_eq_true, beq_iff_eq, hspace,
    Option.isSome_iff_exists] at hknown
  tauto

theorem piece_quote {q : UInt8} (hq : q = 0x22 ∨ q = 0x27) (c : Cursor) :
    c.piece q = (some (c.quoted q).1, (c.quoted q).2) := by
  rcases hq with rfl | rfl <;> rfl

theorem piece_slash (c : Cursor) : c.piece 0x2f = c.slash := by
  rfl

theorem piece_digit {b : UInt8} (hb : Byte.isDigit b = true) (c : Cursor) :
    c.piece b = (some (c.number b).1, (c.number b).2) := by
  have hdouble : b ≠ 0x22 := Byte.ne_of_class hb (by decide)
  have hsingle : b ≠ 0x27 := Byte.ne_of_class hb (by decide)
  have hslash : b ≠ 0x2f := Byte.ne_of_class hb (by decide)
  simp only [piece, hdouble, hsingle, hslash, hb, if_true, if_false]
  rfl

theorem piece_word {b : UInt8} (hb : Byte.beginsWord b = true) (c : Cursor) :
    c.piece b = (some (c.word b).1, (c.word b).2) := by
  have hdouble : b ≠ 0x22 := Byte.ne_of_class hb (by decide)
  have hsingle : b ≠ 0x27 := Byte.ne_of_class hb (by decide)
  have hdigit : Byte.isDigit b = false := Byte.isDigit_eq_false_of_beginsWord hb
  have hslash : b ≠ 0x2f := Byte.ne_of_class hb (by decide)
  simp only [piece, hdouble, hsingle, hslash, hdigit, hb, if_true, if_false]
  rfl

theorem piece_sign {b : UInt8} {single : Token.Kind} (hb : single? b = some single) (c : Cursor) :
    c.piece b = (some ((c.keep b).sign single).1, ((c.keep b).sign single).2) := by
  have hall : ∀ p ∈ singles, p.1 ≠ 0x22 ∧ p.1 ≠ 0x27 ∧ p.1 ≠ 0x2f ∧
      Byte.isDigit p.1 = false ∧ Byte.beginsWord p.1 = false := by decide
  obtain ⟨hdouble, hquote, hslash, hdigit, hword⟩ := hall _ (mem_singles hb)
  simp only [piece, hdouble, hquote, hslash, hdigit, hword, if_false, punctuation, hb]
  rfl

section

variable {text r : List UInt8} {b : UInt8} {c : Cursor}

/-- A slash that opens no comment is a token. -/
theorem isSome_slash (hline : r.head? ≠ some 0x2f) (hblock : r.head? ≠ some 0x2a)
    (h : c.source.Stands text r) : c.slash.1.isSome = true := by
  have hnext := (stands_next h).1
  unfold slash
  split
  · rename_i b d hd
    rw [hd] at hnext
    have h₁ : b ≠ 0x2f := fun hb => hline (by rw [← hnext, hb])
    have h₂ : b ≠ 0x2a := fun hb => hblock (by rw [← hnext, hb])
    rw [if_neg h₁, if_neg h₂]
    rfl
  · rfl

/-- Where a token begins, a token is read. -/
theorem isSome_piece (hb : Begins b r) (h : c.source.Stands text r) :
    (c.piece b).1.isSome = true := by
  rcases hb.cases with hquote | hslash | hdigit | hword | ⟨kind, hsign⟩
  · rw [piece_quote hquote]
    rfl
  · subst hslash
    rw [piece_slash]
    exact isSome_slash (hb.line rfl) (hb.block rfl) h
  · rw [piece_digit hdigit]
    rfl
  · rw [piece_word hword]
    rfl
  · rw [piece_sign hsign]
    rfl

/-! ## What a token passes over -/

theorem token_space (hb : Byte.isSpace b = true) (h : c.source.Stands text (b :: r)) :
    ∃ d, c.token = d.token ∧ d.source.Stands text r ∧ c.Passes d := by
  obtain ⟨d, hd, hs, -⟩ := next_cons h
  have hskip : c.skipSpace = d.skipSpace := by
    rw [skipSpace, skipWhile_eq, hd]
    simp [hb, skipSpace]
  have hbegin : c.begin = d.begin := by rw [begin, hskip, begin]
  refine ⟨d, ?_, hs, ?_⟩
  · rw [token_eq c, hbegin, ← token_eq d]
  · simpa only [hd] using c.passes_next

theorem passes_begin (c : Cursor) : c.Passes c.begin :=
  ⟨(passes_skipSpace c).name, (passes_skipSpace c).warns, (passes_skipSpace c).failure,
    (passes_skipSpace c).faults⟩

theorem token_nil (h : c.source.Stands text []) : ∃ d, c.token = (none, d) ∧ c.Passes d := by
  obtain ⟨d, hd, -⟩ := next_nil (c := c.begin) (stands_skipWhile Byte.isSpace h)
  refine ⟨d, ?_, (passes_begin c).trans ?_⟩
  · rw [token_eq, hd]
  · simpa only [hd] using c.begin.passes_next

/-- A token starts at the first byte that is no blank. -/
theorem begin_next (hb : Byte.isSpace b = false) (h : c.source.Stands text (b :: r)) :
    ∃ d, c.begin.next = (some b, d) ∧ d.source.Stands text r ∧ c.Passes d ∧
      d.lexeme.toList = [] ∧ ∃ w, text = w ++ b :: r ∧ d.start = .after w := by
  have hs : c.begin.source.Stands text (b :: r) := by
    have := stands_skipWhile Byte.isSpace h
    rwa [List.dropWhile_cons_of_neg (by simp [hb])] at this
  obtain ⟨w, hw, hp⟩ := hs.passed
  obtain ⟨d, hd, hsd, -⟩ := next_cons hs
  have hpass := c.begin.passes_next
  have hlexeme := c.begin.lexeme_next
  have hstart := c.begin.start_next
  rw [hd] at hpass hlexeme hstart
  refine ⟨d, hd, hsd, (passes_begin c).trans hpass, ?_, w, hw, ?_⟩
  · rw [hlexeme]
    rfl
  · rw [hstart, ← hp]
    rfl

@[simp] theorem source_warnOf (b : UInt8) (c : Cursor) : (c.warnOf b).source = c.source := by
  unfold warnOf
  split <;> rfl

/-- An unknown byte leaves its warning at the most. -/
theorem token_unknown (hb : unknown b = true) (h : c.source.Stands text (b :: r)) :
    ∃ d, c.token = (warnOf b d).token ∧ d.source.Stands text r ∧ c.Passes d := by
  have hspace : Byte.isSpace b = false := by
    simp only [unknown, Bool.not_eq_true', Bool.or_eq_false_iff] at hb
    exact hb.1.1.1.1.1.1
  obtain ⟨d, hd, hs, hpass, -⟩ := begin_next hspace h
  refine ⟨(d.keep b).forget, ?_, hs, hpass.name, hpass.warns, hpass.failure, hpass.faults⟩
  rw [token_eq, hd]
  simp only [piece_of_unknown hb]

theorem token_line (h : c.source.Stands text (0x2f :: 0x2f :: r)) :
    ∃ d : Cursor, c.token = d.token ∧ d.source.Stands text (afterLine r) ∧ c.Passes d := by
  obtain ⟨d, hd, hs, hpass, -⟩ := begin_next (by decide) h
  obtain ⟨e, he, hs, -⟩ := next_cons hs
  have hpe : d.Passes e := by simpa only [he] using d.passes_next
  refine ⟨e.skipLine, ?_, stands_skipLine hs, (hpass.trans hpe).trans e.passes_skipLine⟩
  rw [token_eq, hd]
  simp [piece, slash, he]

theorem token_block (h : c.source.Stands text (0x2f :: 0x2a :: r)) :
    ∃ d : Cursor, c.token = d.token ∧ d.source.Stands text ((afterBlock false r).getD []) ∧
      ((afterBlock false r).isSome = true → c.Passes d) := by
  obtain ⟨d, hd, hs, hpass, -⟩ := begin_next (by decide) h
  obtain ⟨e, he, hs, -⟩ := next_cons hs
  have hpe : d.Passes e := by simpa only [he] using d.passes_next
  obtain ⟨-, hstands, hblock⟩ := skipBlock_of_stands false hs
  refine ⟨(e.skipBlock false).2, ?_, hstands, fun hsome => ?_⟩
  · rw [token_eq, hd]
    simp [piece, slash, he]
  · exact (hpass.trans hpe).trans (hblock hsome)

/-- **Blanks and complete comments are passed over** without a trace. -/
theorem token_filler {w : List UInt8} (hw : Filler Byte.isSpace w)
    (h : c.source.Stands text (w ++ r)) :
    ∃ d : Cursor, c.token = d.token ∧ d.source.Stands text r ∧ c.Passes d := by
  induction hw generalizing c with
  | nil => exact ⟨c, rfl, h, .refl c⟩
  | byte hb _ ih =>
    obtain ⟨d, hd, hs, hpass⟩ := token_space hb h
    obtain ⟨e, he, hse, hpe⟩ := ih hs
    exact ⟨e, hd.trans he, hse, hpass.trans hpe⟩
  | @line v w hv _ ih =>
    have hr : c.source.Stands text (0x2f :: 0x2f :: (v ++ 0x0a :: (w ++ r))) := by simpa using h
    obtain ⟨d, hd, hs, hpass⟩ := token_line hr
    rw [afterLine_append hv] at hs
    obtain ⟨e, he, hse, hpe⟩ := ih hs
    exact ⟨e, hd.trans he, hse, hpass.trans hpe⟩
  | @block v w hv _ ih =>
    have hr : c.source.Stands text (0x2f :: 0x2a :: (v ++ 0x2a :: 0x2f :: (w ++ r))) := by
      simpa using h
    obtain ⟨d, hd, hs, hpass⟩ := token_block hr
    have hafter : afterBlock false (v ++ 0x2a :: 0x2f :: (w ++ r)) = some (w ++ r) :=
      afterBlock_eq_some.2 ⟨v, rfl, hv⟩
    rw [hafter] at hs hpass
    obtain ⟨e, he, hse, hpe⟩ := ih hs
    exact ⟨e, hd.trans he, hse, (hpass rfl).trans hpe⟩

/-- What begins a token is read from there on, with nothing kept. -/
theorem token_of_begins (hb : Begins b r) (h : c.source.Stands text (b :: r)) :
    ∃ d, c.token = d.piece b ∧ d.source.Stands text r ∧ c.Passes d ∧ d.lexeme.toList = [] ∧
      ∃ w, text = w ++ b :: r ∧ d.start = .after w := by
  obtain ⟨d, hd, hs, hpass, hlexeme, hstart⟩ := begin_next hb.space h
  refine ⟨d, ?_, hs, hpass, hlexeme, hstart⟩
  obtain ⟨kind, hkind⟩ := Option.isSome_iff_exists.1 (isSome_piece hb hs)
  have hp : d.piece b = (some kind, (d.piece b).2) := Prod.ext hkind rfl
  rw [token_eq, hd]
  dsimp only
  rw [hp]

/-- Where no token begins, a filler is passed over, or a comment takes all that is left. -/
theorem token_passes (hb : ¬ Begins b r) (h : c.source.Stands text (b :: r)) :
    (∃ d r₁ r₂, c.token = Cursor.token d ∧ d.source.Stands text r₂ ∧
        d.source.name = c.source.name ∧ b :: r = r₁ ++ r₂ ∧ r₁ ≠ [] ∧
        ∀ w, Filler isPassed w → Filler isPassed (r₁ ++ w)) ∨
      (c.token.1 = none ∧ Unended (b :: r)) := by
  rcases begins_cases b r with hspace | hunknown | ⟨rfl, r, rfl⟩ | ⟨rfl, r, rfl⟩ | hbegins
  · left
    obtain ⟨d, hd, hs, hpass⟩ := token_space hspace h
    refine ⟨d, [b], r, hd, hs, hpass.name, rfl, by simp, fun w hw => ?_⟩
    exact .byte (by simp [isPassed, hspace]) hw
  · left
    obtain ⟨d, hd, hs, hpass⟩ := token_unknown hunknown h
    rw [← source_warnOf b d] at hs
    refine ⟨_, [b], r, hd, hs, ?_, rfl, by simp, fun w hw => ?_⟩
    · rw [source_warnOf, hpass.name]
    exact .byte (by simp [isPassed, hunknown]) hw
  · obtain ⟨d, hd, hs, hpass⟩ := token_line h
    rcases afterLine_cases r with ⟨hno, hend⟩ | ⟨v, hv, hr⟩
    · right
      rw [hend] at hs
      obtain ⟨e, he, -⟩ := token_nil hs
      exact ⟨by rw [hd, he], .line hno⟩
    · left
      refine ⟨d, 0x2f :: 0x2f :: (v ++ [0x0a]), _, hd, hs, hpass.name, ?_, by simp, ?_⟩
      · simpa using hr
      · intro w hw
        simpa using Filler.line hv hw
  · obtain ⟨d, hd, hs, hpass⟩ := token_block h
    rcases hafter : afterBlock false r with _ | r'
    · right
      rw [hafter] at hs
      obtain ⟨e, he, -⟩ := token_nil hs
      exact ⟨by rw [hd, he], .block (afterBlock_eq_none.1 hafter)⟩
    · left
      obtain ⟨v, hr, hv⟩ := afterBlock_eq_some.1 hafter
      rw [hafter] at hs hpass
      refine ⟨d, 0x2f :: 0x2a :: (v ++ [0x2a, 0x2f]), r', hd, hs, (hpass rfl).name, ?_, by simp, ?_⟩
      · simpa using hr
      · intro w hw
        simpa using Filler.block hv hw
  · exact absurd hbegins hb

/-- What stands behind the last token: a filler, and perhaps a comment without an end. -/
def Trailing (r : List UInt8) : Prop :=
  ∃ gap last, r = gap ++ last ∧ Filler isPassed gap ∧ (last = [] ∨ Unended last)

/-- The token that begins with `b`, behind `w` and before `r` in its text, is about to be read. -/
structure Opened (text w r : List UInt8) (b : UInt8) (name : String) (c : Cursor) : Prop where
  split : text = w ++ b :: r
  begins : Begins b r
  stands : c.source.Stands text r
  name : c.source.name = name
  start : c.start = .after w
  lexeme : c.lexeme.toList = []

/-- **A token is read from the first byte that no filler takes,** if there is one. -/
theorem token_cases (h : c.source.Stands text r) :
    (∃ gap b r' w d, r = gap ++ b :: r' ∧ Filler isPassed gap ∧
        Opened text w r' b c.source.name d ∧ c.token = d.piece b) ∨
      (c.token.1 = none ∧ Trailing r) := by
  -- what is passed over makes what is left shorter
  induction hn : r.length using Nat.strongRecOn generalizing c r with
  | ind n ih =>
    subst hn
    cases r with
    | nil =>
      obtain ⟨e, he, -⟩ := token_nil h
      exact .inr ⟨by rw [he], [], [], rfl, .nil, .inl rfl⟩
    | cons b r =>
      by_cases hb : Begins b r
      · obtain ⟨e, he, hs, hpass, hlexeme, w, hw, hstart⟩ := token_of_begins hb h
        exact .inl ⟨[], b, r, w, e, rfl, .nil, ⟨hw, hb, hs, hpass.name, hstart, hlexeme⟩, he⟩
      · rcases token_passes hb h with ⟨e, r₁, r₂, he, hs, hname, hr, hne, hfill⟩ | ⟨hend, hlast⟩
        · have hlt : r₂.length < (b :: r).length := by
            have := List.length_pos_iff.2 hne
            rw [hr, List.length_append]
            omega
          rw [he, ← hname, hr]
          rcases ih _ hlt hs rfl with ⟨gap, b', r', w, d, rfl, hgap, ho, hd⟩ | ⟨hnone, gap, last, rfl, hgap, hlast⟩
          · exact .inl ⟨r₁ ++ gap, b', r', w, d, by simp, hfill gap hgap, ho, hd⟩
          · exact .inr ⟨hnone, r₁ ++ gap, last, by simp, hfill gap hgap, hlast⟩
        · exact .inr ⟨hend, [], b :: r, rfl, .nil, .inr hlast⟩

/-- What is read of a token leaves its start, and bytes at the end of its text. -/
theorem Opened.standing {w : List UInt8} {name : String} (h : Opened text w r b name c) :
    Standing text r name (.after w) (c.piece b).2 := by
  have hstanding : Standing text r name (.after w) c :=
    ⟨h.name, h.start, r, h.stands, List.suffix_refl r⟩
  exact ((Standing.reading text r name (.after w)).piece b ⟨rfl, hstanding⟩).2.2

/-- **A token starts at the first byte that no filler takes,** and takes this byte and bytes after
it. -/
theorem token_begins {kind : Token.Kind} {d : Cursor} (h : c.source.Stands text r)
    (hk : c.token = (some kind, d)) :
    ∃ gap b r' w, r = gap ++ b :: r' ∧ Filler isPassed gap ∧ Begins b r' ∧
      text = w ++ b :: r' ∧ Standing text r' c.source.name (.after w) d := by
  rcases token_cases h with ⟨gap, b, r', w, e, hr, hgap, ho, he⟩ | ⟨hnone, -⟩
  · have hstanding := ho.standing
    rw [← he, hk] at hstanding
    exact ⟨gap, b, r', w, hr, hgap, ho.begins, ho.split, hstanding⟩
  · rw [hk] at hnone
    cases hnone

end

end Cursor
end ClassIndex
