/-
# Reading without a fault

Of a source that does not fail, a reader's cursor is told by the bytes that are left, the bytes
kept so far, and the absence of faults. Each reader is described by what it takes of the bytes
that are left, where these are followed by a blank or by nothing.
-/

import ClassIndex.Proofs.Cursor.Begin
import ClassIndex.Proofs.Cursor.Sign
import ClassIndex.Proofs.Token.Spelling

namespace ClassIndex
namespace Cursor

/-- A cursor with these bytes left and these kept, and no fault. -/
structure Clean (text r lexeme : List UInt8) (c : Cursor) : Prop where
  stands : c.source.Stands text r
  lexeme : c.lexeme.toList = lexeme
  sound : c.source.failure? = none
  faults : c.faults = []

/-- A reader answers with a kind, and leaves a cursor without a fault. -/
def Gives (text r lexeme : List UInt8) (kind : Token.Kind) (x : Token.Kind × Cursor) : Prop :=
  x.1 = kind ∧ Clean text r lexeme x.2

/-- Nothing follows, or a blank. -/
def Apart (r : List UInt8) : Prop := ∀ b ∈ r.head?, Byte.isSpace b = true

/-- Neither blanks nor a comment follow. -/
def Bare (r : List UInt8) : Prop := ∀ b v, r = b :: v → Byte.isSpace b = false ∧
  (b = 0x2f → v.head? ≠ some 0x2f ∧ v.head? ≠ some 0x2a)

theorem bare_nil : Bare [] := fun b v h => by cases h

/-- A byte that is neither a blank nor a slash begins no trivia. -/
theorem bare_cons {b : UInt8} (hspace : Byte.isSpace b = false) (hslash : b ≠ 0x2f)
    (v : List UInt8) : Bare (b :: v) := by
  intro b' v' hb
  obtain ⟨rfl, -⟩ := List.cons.inj hb
  exact ⟨hspace, fun h => absurd h hslash⟩

theorem Begins.bare {b : UInt8} {r : List UInt8} (h : Begins b r) : Bare (b :: r) := by
  rintro b' v hbv
  obtain ⟨rfl, rfl⟩ := List.cons.inj hbv
  exact ⟨h.space, fun hb => ⟨h.line hb, h.block hb⟩⟩

section

variable {text r l : List UInt8} {b : UInt8} {c : Cursor}

theorem Clean.of_passes {d : Cursor} {r' : List UInt8} (h : Clean text r l c) (hp : c.Passes d)
    (hl : d.lexeme = c.lexeme) (hs : d.source.Stands text r') : Clean text r' l d :=
  ⟨hs, hl ▸ h.lexeme, hp.failure.trans h.sound, (hp.faults h.sound).trans h.faults⟩

/-- What begins a token is read from there on, without a fault. -/
theorem token_piece (hb : Begins b r) (h : c.source.Stands text (b :: r))
    (hsound : c.source.failure? = none) (hfaults : c.faults = []) :
    ∃ d, c.token = d.piece b ∧ Clean text r [] d := by
  obtain ⟨d, hd, hs, hpass, hlexeme, -⟩ := token_of_begins hb h
  exact ⟨d, hd, hs, hlexeme, hpass.failure.trans hsound, (hpass.faults hsound).trans hfaults⟩

theorem Clean.keep (h : Clean text r l c) (b : UInt8) : Clean text r (l ++ [b]) (c.keep b) :=
  ⟨h.stands, by simp [Cursor.keep, h.lexeme], h.sound, h.faults⟩

theorem Clean.keepAll (h : Clean text r l c) (bs : List UInt8) :
    Clean text r (l ++ bs) (c.keepAll bs) :=
  ⟨h.stands, by simp [Cursor.keepAll, h.lexeme], h.sound, h.faults⟩

/-- Whatever is left, reading takes the first byte of it, which may be given back. -/
theorem Clean.next (h : Clean text r l c) :
    c.next.1 = r.head? ∧ Clean text r.tail l c.next.2 ∧
      Clean text r l (c.next.2.giveBack c.next.1) := by
  obtain ⟨h₁, h₂, h₃⟩ := stands_next h.stands
  refine ⟨h₁, h.of_passes c.passes_next c.lexeme_next h₂, ?_⟩
  exact h.of_passes (c.passes_next.trans (passes_giveBack _ _)) (by simp) h₃

theorem Clean.next_cons (h : Clean text (b :: r) l c) :
    ∃ d, c.next = (some b, d) ∧ Clean text r l d ∧ Clean text (b :: r) l (d.giveBack (some b)) := by
  obtain ⟨h₁, h₂, h₃⟩ := h.next
  rw [h₁] at h₃
  exact ⟨c.next.2, Prod.ext h₁ rfl, h₂, h₃⟩

/-- Where a blank or nothing follows, nothing more is taken. -/
theorem Clean.next_apart (h : Clean text r l c) (hr : Apart r) :
    (∃ d, c.next = (none, d) ∧ Clean text r l d) ∨
      ∃ b d, c.next = (some b, d) ∧ Byte.isSpace b = true ∧
        Clean text r l (d.giveBack (some b)) := by
  obtain ⟨h₁, -, h₃⟩ := h.next
  rcases hc : c.next with ⟨_ | b, d⟩
  · rw [hc] at h₃
    exact .inl ⟨d, rfl, h₃⟩
  · rw [hc] at h₁ h₃
    exact .inr ⟨b, d, rfl, hr b h₁.symm, h₃⟩

/-! ## Runs of bytes -/

theorem Clean.keepWhile (p : UInt8 → Bool) (h : Clean text r l c) :
    Clean text (r.dropWhile p) (l ++ r.takeWhile p) (c.keepWhile p) := by
  obtain ⟨hs, hl, hp⟩ := keepWhile_of_stands p h.stands
  exact ⟨hs, by rw [hl, h.lexeme], hp.failure.trans h.sound, (hp.faults h.sound).trans h.faults⟩

/-- A run that a byte of no such class follows is kept as a whole. -/
theorem Clean.keepWhile_append {p : UInt8 → Bool} {ds : List UInt8}
    (h : Clean text (ds ++ r) l c) (hds : ∀ d ∈ ds, p d = true)
    (hr : ∀ b ∈ r.head?, p b = false) : Clean text r (l ++ ds) (c.keepWhile p) := by
  have := h.keepWhile p
  rw [List.takeWhile_append_of_pos hds, List.dropWhile_append_of_pos hds] at this
  cases r with
  | nil => simpa using this
  | cons b r => simpa [hr b rfl] using this

/-! ## Numbers -/

/-- A run of a class without blanks ends where a blank or nothing follows. -/
theorem Apart.head {p : UInt8 → Bool} (hr : Apart r)
    (hp : Byte.blanks.all (fun b => !p b) = true) : ∀ b ∈ r.head?, p b = false :=
  fun b hb => Byte.not_of_isSpace hp (hr b hb)

/-- Keeping bytes makes a lexeme longer. -/
theorem Clean.length_ne {ds r' : List UInt8} {d : Cursor} (h : Clean text r l c)
    (hd : Clean text r' (l ++ ds) d) (hne : ds ≠ []) : d.lexeme.length ≠ c.lexeme.length := by
  show d.lexeme.toList.length ≠ c.lexeme.toList.length
  have := List.length_pos_of_ne_nil hne
  rw [hd.lexeme, h.lexeme, List.length_append]
  omega

theorem Clean.hexNumber {ds : List UInt8} (h : Clean text (ds ++ r) l c) (hne : ds ≠ [])
    (hds : ∀ d ∈ ds, Byte.isHexDigit d = true) (hr : Apart r) :
    Gives text r (l ++ ds) .hexNumber c.hexNumber := by
  have hk := h.keepWhile_append hds (hr.head (by decide))
  simp only [Cursor.hexNumber, h.length_ne hk hne, if_false]
  exact ⟨rfl, hk⟩

theorem Clean.octalNumber {ds : List UInt8} (h : Clean text (ds ++ r) l c)
    (hl : ∀ d ∈ l, Byte.isOctalDigit d = true) (hds : ∀ d ∈ ds, Byte.isOctalDigit d = true)
    (hr : Apart r) : Gives text r (l ++ ds) .octalNumber c.octalNumber := by
  have hlow : ∀ d, Byte.isOctalDigit d = true → (d == 0x38 || d == 0x39) = false := by
    intro d hd
    have h₁ : d ≠ 0x38 := Byte.ne_of_class hd (by decide)
    have h₂ : d ≠ 0x39 := Byte.ne_of_class hd (by decide)
    simp [h₁, h₂]
  have hk := h.keepWhile_append (fun d hd => Byte.isDigit_of_isOctalDigit (hds d hd))
    (hr.head (by decide))
  have hany : (l ++ ds).any (fun b => b == 0x38 || b == 0x39) = false := by
    rw [List.any_eq_false]
    intro d hd
    rcases List.mem_append.1 hd with hd | hd
    · simp [hlow d (hl d hd)]
    · simp [hlow d (hds d hd)]
  simp only [Cursor.octalNumber, hk.lexeme, hany]
  exact ⟨rfl, hk⟩

theorem Clean.exponentDigits {ds : List UInt8} (h : Clean text (ds ++ r) l c) (hne : ds ≠ [])
    (hds : ∀ d ∈ ds, Byte.isDigit d = true) (hr : Apart r) :
    Gives text r (l ++ ds) .floatNumber c.exponentDigits := by
  have hk := h.keepWhile_append hds (hr.head (by decide))
  simp only [Cursor.exponentDigits, h.length_ne hk hne, if_false]
  exact ⟨rfl, hk⟩

/-- An exponent after its letter: the sign is kept too, where there is one. -/
theorem Clean.exponent {sign ds : List UInt8} (h : Clean text (sign ++ ds ++ r) l c)
    (hsign : sign = [] ∨ sign = [0x2b] ∨ sign = [0x2d]) (hne : ds ≠ [])
    (hds : ∀ d ∈ ds, Byte.isDigit d = true) (hr : Apart r) :
    Gives text r (l ++ (sign ++ ds)) .floatNumber c.exponent := by
  unfold Cursor.exponent
  rcases hsign with rfl | rfl | rfl
  · obtain ⟨b, ds, rfl⟩ := List.exists_cons_of_ne_nil hne
    obtain ⟨d, hd, -, hback⟩ := h.next_cons
    have hdigit : Byte.isDigit b = true := hds b (by simp)
    have hplus : b ≠ 0x2b := Byte.ne_of_class hdigit (by decide)
    have hminus : b ≠ 0x2d := Byte.ne_of_class hdigit (by decide)
    simp only [hd, hplus, hminus]
    exact Clean.exponentDigits hback hne hds hr
  · obtain ⟨d, hd, hs, -⟩ := h.next_cons
    simp only [hd]
    simpa using (hs.keep 0x2b).exponentDigits hne hds hr
  · obtain ⟨d, hd, hs, -⟩ := h.next_cons
    simp only [hd]
    simpa using (hs.keep 0x2d).exponentDigits hne hds hr

/-- A float after its point. -/
theorem Clean.fraction {ds e : List UInt8} (h : Clean text (ds ++ e ++ r) l c)
    (hds : ∀ d ∈ ds, Byte.isDigit d = true) (he : Token.Exponent e) (hr : Apart r) :
    Gives text r (l ++ ds ++ e) .floatNumber c.fraction := by
  rw [List.append_assoc] at h
  unfold Cursor.fraction
  cases he with
  | none =>
    have hk := h.keepWhile_append hds (hr.head (by decide))
    rcases hk.next_apart hr with ⟨d, hd, hs⟩ | ⟨b, d, hd, hb, hs⟩
    · simp only [hd]
      exact ⟨rfl, by simpa using hs⟩
    · have hlower : b ≠ 0x65 := Byte.ne_of_class hb (by decide)
      have hupper : b ≠ 0x45 := Byte.ne_of_class hb (by decide)
      simp only [hd, hlower, hupper]
      exact ⟨rfl, by simpa using hs⟩
  | @some x sign ds' hx hsign hne hds' =>
    have hxd : ∀ b ∈ (x :: (sign ++ ds') ++ r).head?, Byte.isDigit b = false := by
      rintro b hb
      obtain rfl : x = b := by simpa using hb
      rcases hx with rfl | rfl <;> decide
    have hk := h.keepWhile_append hds hxd
    obtain ⟨d, hd, hs, -⟩ := hk.next_cons
    have hmark : (decide (x = 0x65) || decide (x = 0x45)) = true := by simpa using hx
    simp only [hd, hmark, if_true]
    simpa using (hs.keep x).exponent hsign hne hds' hr

/-- A whole number after its first digit, where no point follows. -/
theorem Clean.wholeNumber {ds : List UInt8} (h : Clean text (ds ++ r) l c)
    (hds : ∀ d ∈ ds, Byte.isDigit d = true) (hr : Apart r) :
    Gives text r (l ++ ds) .wholeNumber c.wholeNumber := by
  have hk := h.keepWhile_append hds (hr.head (by decide))
  unfold Cursor.wholeNumber
  rcases hk.next_apart hr with ⟨d, hd, hs⟩ | ⟨b, d, hd, hb, hs⟩
  · simp only [hd]
    exact ⟨rfl, hs⟩
  · have hpoint : b ≠ 0x2e := Byte.ne_of_class hb (by decide)
    simp only [hd, hpoint, if_false]
    exact ⟨rfl, hs⟩

/-- A whole number after its first digit turns out to be a float where a point follows. -/
theorem Clean.wholeNumber_point {ds f : List UInt8} (h : Clean text (ds ++ 0x2e :: f) l c)
    (hds : ∀ d ∈ ds, Byte.isDigit d = true) :
    ∃ d, c.wholeNumber = d.fraction ∧ Clean text f (l ++ ds ++ [0x2e]) d := by
  have hk := h.keepWhile_append hds (by simp [Byte.isDigit])
  obtain ⟨d, hd, hs, -⟩ := hk.next_cons
  refine ⟨d.keep 0x2e, ?_, hs.keep 0x2e⟩
  simp only [Cursor.wholeNumber, hd, if_true]

theorem Clean.zeroNumber (h : Clean text r l c) (hr : Apart r) :
    Gives text r l .wholeNumber c.zeroNumber := by
  unfold Cursor.zeroNumber
  rcases h.next_apart hr with ⟨d, hd, hs⟩ | ⟨b, d, hd, hb, hs⟩
  · simp only [hd]
    exact ⟨rfl, hs⟩
  · have hlower : b ≠ 0x78 := Byte.ne_of_class hb (by decide)
    have hupper : b ≠ 0x58 := Byte.ne_of_class hb (by decide)
    have hpoint : b ≠ 0x2e := Byte.ne_of_class hb (by decide)
    have hdigit : Byte.isDigit b = false := Byte.not_of_isSpace (by decide) hb
    simp only [hd, hlower, hupper, hpoint, hdigit]
    exact ⟨rfl, hs⟩

theorem Clean.number_hex {x : UInt8} {ds : List UInt8} (h : Clean text (x :: ds ++ r) [] c)
    (hx : x = 0x78 ∨ x = 0x58) (hne : ds ≠ []) (hds : ∀ d ∈ ds, Byte.isHexDigit d = true)
    (hr : Apart r) : Gives text r (0x30 :: x :: ds) .hexNumber (c.number 0x30) := by
  obtain ⟨d, hd, hs, -⟩ := (h.keep 0x30).next_cons
  have hmark : (decide (x = 0x78) || decide (x = 0x58)) = true := by simpa using hx
  simp only [Cursor.number, Cursor.zeroNumber, if_true, hd, hmark]
  exact (hs.keep x).hexNumber hne hds hr

theorem Clean.number_octal {ds : List UInt8} (h : Clean text (ds ++ r) [] c) (hne : ds ≠ [])
    (hds : ∀ d ∈ ds, Byte.isOctalDigit d = true) (hr : Apart r) :
    Gives text r (0x30 :: ds) .octalNumber (c.number 0x30) := by
  obtain ⟨b, ds, rfl⟩ := List.exists_cons_of_ne_nil hne
  obtain ⟨d, hd, -, hback⟩ := (h.keep 0x30).next_cons
  have hb : Byte.isOctalDigit b = true := hds b (by simp)
  have hlower : b ≠ 0x78 := Byte.ne_of_class hb (by decide)
  have hupper : b ≠ 0x58 := Byte.ne_of_class hb (by decide)
  have hpoint : b ≠ 0x2e := Byte.ne_of_class hb (by decide)
  simp only [Cursor.number, Cursor.zeroNumber, if_true, hd, hlower, hupper, hpoint,
    Byte.isDigit_of_isOctalDigit hb]
  exact Clean.octalNumber hback (by simp [Byte.isOctalDigit]) hds hr

theorem Clean.number_whole {b : UInt8} {w : List UInt8} (hw : Token.Whole (b :: w))
    (h : Clean text (w ++ r) [] c) (hr : Apart r) :
    Gives text r (b :: w) .wholeNumber (c.number b) := by
  cases hw with
  | zero => exact (h.keep 0x30).zeroNumber hr
  | digits _ hne hds =>
    rw [Cursor.number, if_neg hne]
    exact (h.keep b).wholeNumber hds hr

theorem Clean.number_float {b : UInt8} {w ds e : List UInt8} (hw : Token.Whole (b :: w))
    (h : Clean text (w ++ 0x2e :: (ds ++ e) ++ r) [] c) (hds : ∀ d ∈ ds, Byte.isDigit d = true)
    (he : Token.Exponent e) (hr : Apart r) :
    Gives text r (b :: w ++ 0x2e :: (ds ++ e)) .floatNumber (c.number b) := by
  rw [List.append_assoc] at h
  cases hw with
  | zero =>
    obtain ⟨d, hd, hs, -⟩ := (h.keep 0x30).next_cons
    simp only [Cursor.number, Cursor.zeroNumber, if_true, hd]
    simpa using (hs.keep 0x2e).fraction hds he hr
  | digits _ hne hdigits =>
    obtain ⟨d, hd, hs⟩ := (h.keep b).wholeNumber_point hdigits
    rw [Cursor.number, if_neg hne, hd]
    simpa using hs.fraction hds he hr

/-! ## Words and signs -/

theorem Clean.word {w : List UInt8} (h : Clean text (w ++ r) [] c)
    (hw : ∀ x ∈ w, Byte.inWord x = true) (hr : Apart r) (b : UInt8) :
    Gives text r (b :: w) (Token.wordKind (b :: w)) (c.word b) := by
  have hk := (h.keep b).keepWhile_append hw (hr.head (by decide))
  exact ⟨congrArg Token.wordKind hk.lexeme, hk⟩

theorem Clean.sign (h : Clean text r l c) (hr : Apart r) (single : Token.Kind) :
    Gives text r l single (c.sign single) := by
  unfold Cursor.sign
  split
  · exact ⟨rfl, h⟩
  · rcases h.next_apart hr with ⟨d, hd, hs⟩ | ⟨b, d, hd, hb, hs⟩
    · simp only [hd]
      exact ⟨rfl, hs⟩
    · simp only [hd, lookup_doubles_of_isSpace single hb]
      exact ⟨rfl, hs⟩

theorem Clean.sign_double {single kind : Token.Kind} (h : Clean text (b :: r) l c)
    (hb : (doubles single).lookup b = some kind) :
    Gives text r (l ++ [b]) kind (c.sign single) := by
  obtain ⟨d, hd, hs, -⟩ := h.next_cons
  have hne : (doubles single).isEmpty = false := by
    rcases hd : doubles single with _ | ⟨p, ps⟩
    · simp [hd] at hb
    · rfl
  simp only [Cursor.sign, hne, hd, hb]
  exact ⟨rfl, hs.keep b⟩

theorem Clean.slash (h : Clean text r [] c) (hr : Apart r) :
    c.slash.1 = some .slash ∧ Clean text r [0x2f] c.slash.2 := by
  unfold Cursor.slash
  rcases h.next_apart hr with ⟨d, hd, hs⟩ | ⟨b, d, hd, hb, hs⟩
  · simp only [hd]
    exact ⟨trivial, hs.keep 0x2f⟩
  · have hother : b ≠ 0x2f ∧ b ≠ 0x2a := by
      constructor <;> rintro rfl <;> exact absurd hb (by decide)
    simp only [hd, hother, if_false]
    exact ⟨trivial, hs.keep 0x2f⟩

end

end Cursor
end ClassIndex
