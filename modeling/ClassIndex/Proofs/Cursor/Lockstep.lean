/-
# Relations that the readers keep

A reader of a token treats its cursor in a few ways only: it reads a byte, gives back the last
byte or the last two, keeps or forgets bytes, marks the start of a token, and reports faults. A
relation between cursors that each of these steps keeps is therefore kept by every reader, and
two related cursors yield tokens of the same kind (`Lockstep.token`).

| relation | what follows of the readers |
| --- | --- |
| equal but for the room of the lexeme buffer | nothing is carried over from earlier tokens |
| equal, and reached from a given place | every byte passed over is accounted for |
-/

import ClassIndex.Cursor.Token

namespace ClassIndex

/-- The fault of a byte that begins no token. No other is told only where that is wanted. -/
def Fault.isUnrecognized (f : Fault) : Bool := f.code == "E020"

namespace Cursor

/-- A token starts at the present position. -/
def mark (c : Cursor) : Cursor := { c with start := c.position }

/-- The warning of an unknown byte, if it is wanted. -/
def warnOf (b : UInt8) (c : Cursor) : Cursor :=
  if c.warns then c.report (.unrecognized b) else c

/-- A relation that is kept by reading a byte, given back or not. -/
structure Stepwise (R : Cursor → Cursor → Prop) : Prop where
  next : ∀ {c d}, R c d → c.next.1 = d.next.1 ∧ R c.next.2 d.next.2
  giveBack : ∀ {c d}, R c d → R (c.next.2.giveBack c.next.1) (d.next.2.giveBack d.next.1)

/-- A relation that is kept by everything that is done to pass over blanks and comments. Two bytes
are given back only where the first is a slash, so never two line feeds. No byte is reported as
unknown but by the step that asks whether that is wanted. -/
structure Skipping (R : Cursor → Cursor → Prop) : Prop extends Stepwise R where
  giveBackTwo : ∀ {c d}, R c d → c.next.1 = some 0x2f →
    R ((c.next.2.next.2.giveBack c.next.2.next.1).giveBack c.next.1)
      ((d.next.2.next.2.giveBack d.next.2.next.1).giveBack d.next.1)
  report : ∀ {c d} (f : Fault), f.isUnrecognized = false → R c d → R (c.report f) (d.report f)

/-- A relation that is kept by everything the readers of a token do once it has begun. -/
structure Reading (R : Cursor → Cursor → Prop) : Prop extends Skipping R where
  lexeme : ∀ {c d}, R c d → c.lexeme.toList = d.lexeme.toList
  keep : ∀ {c d} (b : UInt8), R c d → R (c.keep b) (d.keep b)
  keepAll : ∀ {c d} (bs : List UInt8), R c d → R (c.keepAll bs) (d.keepAll bs)
  forget : ∀ {c d}, R c d → R c.forget d.forget
  warn : ∀ {c d} (b : UInt8), R c d → R (c.warnOf b) (d.warnOf b)

/-- A relation that is kept by everything readers do, the beginning of a token included. -/
structure Lockstep (R : Cursor → Cursor → Prop) : Prop extends Reading R where
  mark : ∀ {c d}, R c d → R c.mark d.mark

/-- Two answers agree, and the cursors they leave are related. -/
def Both {α : Type} (R : Cursor → Cursor → Prop) (x y : α × Cursor) : Prop :=
  x.1 = y.1 ∧ R x.2 y.2

theorem Both.exists_eq {α : Type} {R : Cursor → Cursor → Prop} {x y : α × Cursor}
    (h : Both R x y) {a : α} {e : Cursor} (hx : x = (a, e)) : ∃ e', y = (a, e') ∧ R e e' := by
  subst hx
  exact ⟨y.2, Prod.ext h.1.symm rfl, h.2⟩

section

variable {R : Cursor → Cursor → Prop} {c d e : Cursor}

namespace Stepwise

/-- Related cursors read the same, and stay related whether or not it is given back. -/
theorem next_eq (hR : Stepwise R) (h : R c d) {x : Option UInt8} (hc : c.next = (x, e)) :
    ∃ e', d.next = (x, e') ∧ R e e' ∧ R (e.giveBack x) (e'.giveBack x) := by
  obtain ⟨h₁, h₂⟩ := hR.next h
  have h₃ := hR.giveBack h
  rcases hd : d.next with ⟨y, e'⟩
  simp only [hc, hd] at h₁ h₂ h₃
  subst h₁
  exact ⟨e', rfl, h₂, h₃⟩

theorem skipWhile (hR : Stepwise R) (p : UInt8 → Bool) (h : R c d) :
    R (Cursor.skipWhile p c) (Cursor.skipWhile p d) := by
  fun_induction Cursor.skipWhile p c generalizing d with
  | case1 c b e hc hp ih =>
    obtain ⟨e', hd, he, -⟩ := hR.next_eq h hc
    rw [skipWhile_eq p d, hd]
    simpa [hp] using ih he
  | case2 c b e hc hp =>
    obtain ⟨e', hd, -, he⟩ := hR.next_eq h hc
    rw [skipWhile_eq p d, hd]
    simpa [hp] using he
  | case3 c e hc =>
    obtain ⟨e', hd, he, -⟩ := hR.next_eq h hc
    rw [skipWhile_eq p d, hd]
    exact he

theorem skipSpace (hR : Stepwise R) (h : R c d) : R c.skipSpace d.skipSpace :=
  hR.skipWhile Byte.isSpace h

theorem skipLine (hR : Stepwise R) (h : R c d) : R c.skipLine d.skipLine := by
  fun_induction Cursor.skipLine c generalizing d with
  | case1 c e hc =>
    obtain ⟨e', hd, he, -⟩ := hR.next_eq h hc
    rw [skipLine_eq d, hd]
    exact he
  | case2 c b e hc hb ih =>
    obtain ⟨e', hd, he, -⟩ := hR.next_eq h hc
    rw [skipLine_eq d, hd]
    simpa [hb] using ih he
  | case3 c e hc =>
    obtain ⟨e', hd, he, -⟩ := hR.next_eq h hc
    rw [skipLine_eq d, hd]
    exact he

end Stepwise

namespace Skipping

/-- Where a slash and what follows it are read, both may be given back. -/
theorem next_next_eq (hR : Skipping R) (h : R c d) (hc : c.next = (some 0x2f, e))
    {x : Option UInt8} {f : Cursor} (he : e.next = (x, f)) :
    ∃ e' f', d.next = (some 0x2f, e') ∧ e'.next = (x, f') ∧ R f f' ∧
      R ((f.giveBack x).giveBack (some 0x2f)) ((f'.giveBack x).giveBack (some 0x2f)) := by
  obtain ⟨e', hd, h₁, -⟩ := hR.next_eq h hc
  obtain ⟨f', hf, h₂, -⟩ := hR.next_eq h₁ he
  have h₃ := hR.giveBackTwo h (by rw [hc])
  rw [hc, hd] at h₃
  simp only [he, hf] at h₃
  exact ⟨e', f', hd, hf, h₂, h₃⟩

theorem skipBlock (hR : Skipping R) (star : Bool) (h : R c d) :
    Both R (c.skipBlock star) (d.skipBlock star) := by
  fun_induction Cursor.skipBlock star c generalizing d with
  | case1 star c e hc ih =>
    obtain ⟨e', hd, he, -⟩ := hR.next_eq h hc
    rw [skipBlock_eq star d, hd]
    exact ih he
  | case2 star c b e hc hb hs =>
    obtain ⟨e', hd, he, -⟩ := hR.next_eq h hc
    rw [skipBlock_eq star d, hd]
    simpa only [hb, hs] using ⟨rfl, he⟩
  | case3 star c b e hc hb hs ih =>
    obtain ⟨e', hd, he, -⟩ := hR.next_eq h hc
    rw [skipBlock_eq star d, hd]
    simpa [hb, hs] using ih he
  | case4 star c e hc =>
    obtain ⟨e', hd, he, -⟩ := hR.next_eq h hc
    rw [skipBlock_eq star d, hd]
    exact ⟨rfl, hR.report _ rfl he⟩

theorem skipTrivia (hR : Skipping R) (h : R c d) : R c.skipTrivia d.skipTrivia := by
  fun_induction Cursor.skipTrivia c generalizing d with
  | case1 c e f hc hf ih =>
    obtain ⟨e', f', hd, he, hf', -⟩ := hR.next_next_eq (hR.skipSpace h) hc hf
    rw [skipTrivia_eq d, hd]
    simpa [he] using ih (hR.skipLine hf')
  | case2 c e f g hg hc hf _ ih =>
    obtain ⟨e', f', hd, he, hf', -⟩ := hR.next_next_eq (hR.skipSpace h) hc hf
    obtain ⟨g', hg', hgg⟩ := (hR.skipBlock false hf').exists_eq hg
    rw [skipTrivia_eq d, hd]
    simpa [he, hg'] using ih hgg
  | case3 c e f g hg hc hf =>
    obtain ⟨e', f', hd, he, hf', -⟩ := hR.next_next_eq (hR.skipSpace h) hc hf
    obtain ⟨g', hg', hgg⟩ := (hR.skipBlock false hf').exists_eq hg
    rw [skipTrivia_eq d, hd]
    simpa [he, hg'] using hgg
  | case4 c e b f hf h₁ h₂ hc =>
    obtain ⟨e', f', hd, he, -, hb⟩ := hR.next_next_eq (hR.skipSpace h) hc hf
    rw [skipTrivia_eq d, hd]
    simpa [he, h₁, h₂] using hb
  | case5 c e f hf hc =>
    obtain ⟨e', f', hd, he, -, hb⟩ := hR.next_next_eq (hR.skipSpace h) hc hf
    rw [skipTrivia_eq d, hd]
    simpa [he] using hb
  | case6 c b e hc hb =>
    obtain ⟨e', hd, -, he⟩ := hR.next_eq (hR.skipSpace h) hc
    rw [skipTrivia_eq d, hd]
    simpa [hb] using he
  | case7 c e hc =>
    obtain ⟨e', hd, he, -⟩ := hR.next_eq (hR.skipSpace h) hc
    rw [skipTrivia_eq d, hd]
    exact he

end Skipping

namespace Reading

theorem length_eq (hR : Reading R) (h : R c d) : c.lexeme.length = d.lexeme.length :=
  congrArg List.length (hR.lexeme h)

theorem text_eq (hR : Reading R) (h : R c d) : c.lexeme.text = d.lexeme.text :=
  congrArg Text.lossy (hR.lexeme h)

theorem keepWhile (hR : Reading R) (p : UInt8 → Bool) (h : R c d) :
    R (Cursor.keepWhile p c) (Cursor.keepWhile p d) := by
  fun_induction Cursor.keepWhile p c generalizing d with
  | case1 c b e hc hp ih =>
    obtain ⟨e', hd, he, -⟩ := hR.next_eq h hc
    rw [keepWhile_eq p d, hd]
    simpa [hp] using ih (hR.keep b he)
  | case2 c b e hc hp =>
    obtain ⟨e', hd, -, he⟩ := hR.next_eq h hc
    rw [keepWhile_eq p d, hd]
    simpa [hp] using he
  | case3 c e hc =>
    obtain ⟨e', hd, he, -⟩ := hR.next_eq h hc
    rw [keepWhile_eq p d, hd]
    exact he

theorem slash (hR : Reading R) (h : R c d) : Both R c.slash d.slash := by
  rcases hc : c.next with ⟨_ | b, e⟩
  · obtain ⟨e', hd, he, -⟩ := hR.next_eq h hc
    simp only [Cursor.slash, hc, hd]
    exact ⟨rfl, hR.keep _ he⟩
  · obtain ⟨e', hd, he, hb⟩ := hR.next_eq h hc
    simp only [Cursor.slash, hc, hd]
    split
    · exact ⟨rfl, hR.skipLine he⟩
    · split
      · exact ⟨rfl, (hR.skipBlock false he).2⟩
      · exact ⟨rfl, hR.keep _ hb⟩

/-! ## Numbers, words and signs -/

theorem hexNumber (hR : Reading R) (h : R c d) : Both R c.hexNumber d.hexNumber := by
  have hk := hR.keepWhile Byte.isHexDigit h
  simp only [Cursor.hexNumber, hR.length_eq h, hR.length_eq hk]
  split
  · exact ⟨rfl, hR.report _ rfl hk⟩
  · exact ⟨rfl, hk⟩

theorem octalNumber (hR : Reading R) (h : R c d) : Both R c.octalNumber d.octalNumber := by
  have hk := hR.keepWhile Byte.isDigit h
  simp only [Cursor.octalNumber, hR.lexeme hk, hR.text_eq hk]
  split
  · exact ⟨rfl, hR.report _ rfl hk⟩
  · exact ⟨rfl, hk⟩

theorem exponentDigits (hR : Reading R) (h : R c d) :
    Both R c.exponentDigits d.exponentDigits := by
  have hk := hR.keepWhile Byte.isDigit h
  simp only [Cursor.exponentDigits, hR.length_eq h, hR.length_eq hk, hR.text_eq hk]
  split
  · exact ⟨rfl, hR.report _ rfl hk⟩
  · exact ⟨rfl, hk⟩

theorem exponent (hR : Reading R) (h : R c d) : Both R c.exponent d.exponent := by
  rcases hc : c.next with ⟨_ | b, e⟩
  · obtain ⟨e', hd, he, -⟩ := hR.next_eq h hc
    simp only [Cursor.exponent, hc, hd]
    exact hR.exponentDigits he
  · obtain ⟨e', hd, he, hb⟩ := hR.next_eq h hc
    simp only [Cursor.exponent, hc, hd]
    split
    · exact hR.exponentDigits (hR.keep b he)
    · exact hR.exponentDigits hb

theorem fraction (hR : Reading R) (h : R c d) : Both R c.fraction d.fraction := by
  have hk := hR.keepWhile Byte.isDigit h
  rcases hc : (Cursor.keepWhile Byte.isDigit c).next with ⟨_ | b, e⟩
  · obtain ⟨e', hd, he, -⟩ := hR.next_eq hk hc
    simp only [Cursor.fraction, hc, hd]
    exact ⟨rfl, he⟩
  · obtain ⟨e', hd, he, hb⟩ := hR.next_eq hk hc
    simp only [Cursor.fraction, hc, hd]
    split
    · exact hR.exponent (hR.keep b he)
    · exact ⟨rfl, hb⟩

theorem wholeNumber (hR : Reading R) (h : R c d) : Both R c.wholeNumber d.wholeNumber := by
  have hk := hR.keepWhile Byte.isDigit h
  rcases hc : (Cursor.keepWhile Byte.isDigit c).next with ⟨_ | b, e⟩
  · obtain ⟨e', hd, he, -⟩ := hR.next_eq hk hc
    simp only [Cursor.wholeNumber, hc, hd]
    exact ⟨rfl, he⟩
  · obtain ⟨e', hd, he, hb⟩ := hR.next_eq hk hc
    simp only [Cursor.wholeNumber, hc, hd]
    split
    · exact hR.fraction (hR.keep b he)
    · exact ⟨rfl, hb⟩

theorem zeroNumber (hR : Reading R) (h : R c d) : Both R c.zeroNumber d.zeroNumber := by
  rcases hc : c.next with ⟨_ | b, e⟩
  · obtain ⟨e', hd, he, -⟩ := hR.next_eq h hc
    simp only [Cursor.zeroNumber, hc, hd]
    exact ⟨rfl, he⟩
  · obtain ⟨e', hd, he, hb⟩ := hR.next_eq h hc
    simp only [Cursor.zeroNumber, hc, hd]
    split
    · exact hR.hexNumber (hR.keep b he)
    · split
      · exact hR.fraction (hR.keep b he)
      · split
        · exact hR.octalNumber hb
        · exact ⟨rfl, hb⟩

theorem number (hR : Reading R) (first : UInt8) (h : R c d) :
    Both R (c.number first) (d.number first) := by
  unfold Cursor.number
  split
  · exact hR.zeroNumber (hR.keep first h)
  · exact hR.wholeNumber (hR.keep first h)

theorem word (hR : Reading R) (first : UInt8) (h : R c d) :
    Both R (c.word first) (d.word first) := by
  have hk := hR.keepWhile Byte.inWord (hR.keep first h)
  exact ⟨congrArg Token.wordKind (hR.lexeme hk), hk⟩

theorem sign (hR : Reading R) (single : Token.Kind) (h : R c d) :
    Both R (c.sign single) (d.sign single) := by
  unfold Cursor.sign
  split
  · exact ⟨rfl, h⟩
  · rcases hc : c.next with ⟨_ | b, e⟩
    · obtain ⟨e', hd, he, -⟩ := hR.next_eq h hc
      simp only [hd]
      exact ⟨rfl, he⟩
    · obtain ⟨e', hd, he, hb⟩ := hR.next_eq h hc
      simp only [hd]
      split
      · exact ⟨rfl, hR.keep b he⟩
      · exact ⟨rfl, hb⟩

theorem punctuation (hR : Reading R) (first : UInt8) (h : R c d) :
    Both R (c.punctuation first) (d.punctuation first) := by
  unfold Cursor.punctuation
  split
  · rename_i kind _
    have hs := hR.sign kind (hR.keep first h)
    exact ⟨congrArg some hs.1, hs.2⟩
  · exact ⟨rfl, hR.warn first (hR.forget (hR.keep first h))⟩

/-! ## Strings -/

theorem digits (hR : Reading R) (r : Radix) (n : Nat) (h : R c d) :
    Both R (Cursor.digits r n c) (Cursor.digits r n d) := by
  induction n generalizing c d with
  | zero => exact ⟨rfl, h⟩
  | succ n ih =>
    rcases hc : c.next with ⟨_ | b, e⟩
    · obtain ⟨e', hd, he, -⟩ := hR.next_eq h hc
      simp only [Cursor.digits, hc, hd]
      exact ⟨rfl, he⟩
    · obtain ⟨e', hd, he, hb⟩ := hR.next_eq h hc
      simp only [Cursor.digits, hc, hd]
      split
      · exact ⟨congrArg (b :: ·) (ih he).1, (ih he).2⟩
      · exact ⟨rfl, hb⟩

theorem leadingSign (hR : Reading R) (h : R c d) : Both R c.leadingSign d.leadingSign := by
  rcases hc : c.next with ⟨_ | b, e⟩
  · obtain ⟨e', hd, he, -⟩ := hR.next_eq h hc
    simp only [Cursor.leadingSign, hc, hd]
    exact ⟨rfl, he⟩
  · obtain ⟨e', hd, he, hb⟩ := hR.next_eq h hc
    simp only [Cursor.leadingSign, hc, hd]
    split
    · exact ⟨rfl, he⟩
    · split
      · exact ⟨rfl, he⟩
      · exact ⟨rfl, hb⟩

theorem numericEscape (hR : Reading R) (r : Radix) (h : R c d) :
    R (c.numericEscape r) (d.numericEscape r) := by
  have hs : Both R (if r = .decimal then c.leadingSign else (false, c))
      (if r = .decimal then d.leadingSign else (false, d)) := by
    split
    · exact hR.leadingSign h
    · exact ⟨rfl, h⟩
  unfold Cursor.numericEscape
  rcases hc : (if r = .decimal then c.leadingSign else (false, c)) with ⟨negative, e⟩
  obtain ⟨e', hd, he⟩ := hs.exists_eq hc
  rcases hds : Cursor.digits r r.limit e with ⟨_ | ⟨b, bs⟩, f⟩
  · obtain ⟨f', hds', hf⟩ := (hR.digits r r.limit he).exists_eq hds
    simp only [hd, hds, hds', (hR.next hf).1]
    exact hR.report _ rfl hf
  · obtain ⟨f', hds', hf⟩ := (hR.digits r r.limit he).exists_eq hds
    simp only [hd, hds, hds']
    exact hR.keepAll _ hf

theorem escape (hR : Reading R) (h : R c d) : Both R c.escape d.escape := by
  rcases hc : c.next with ⟨_ | b, e⟩
  · obtain ⟨e', hd, he, -⟩ := hR.next_eq h hc
    simp only [Cursor.escape, hc, hd]
    exact ⟨rfl, he⟩
  · obtain ⟨e', hd, he, -⟩ := hR.next_eq h hc
    simp only [Cursor.escape, hc, hd]
    refine ⟨rfl, ?_⟩
    dsimp only
    split
    · exact hR.numericEscape .hex he
    · split
      · exact hR.numericEscape .decimal he
      · split
        · exact hR.numericEscape .octal he
        · exact hR.keep _ he

theorem goesOn (hR : Reading R) (quote : UInt8) (h : R c d) :
    Both R (c.goesOn quote) (d.goesOn quote) := by
  have ht := hR.skipTrivia h
  rcases hc : c.skipTrivia.next with ⟨_ | b, e⟩
  · obtain ⟨e', hd, he, -⟩ := hR.next_eq ht hc
    simp only [Cursor.goesOn, hc, hd]
    exact ⟨rfl, he⟩
  · obtain ⟨e', hd, he, hb⟩ := hR.next_eq ht hc
    simp only [Cursor.goesOn, hc, hd]
    split
    · have hu := hR.skipTrivia he
      rcases hf : e.skipTrivia.next with ⟨_ | b', f⟩
      · obtain ⟨f', hf', hff, -⟩ := hR.next_eq hu hf
        simp only [hf']
        exact ⟨rfl, hR.report _ rfl hff⟩
      · obtain ⟨f', hf', hff, hb'⟩ := hR.next_eq hu hf
        simp only [hf']
        split
        · exact ⟨rfl, hff⟩
        · exact ⟨rfl, hR.report _ rfl hb'⟩
    · exact ⟨rfl, hb⟩

theorem quoted (hR : Reading R) (quote : UInt8) (h : R c d) :
    Both R (c.quoted quote) (d.quoted quote) := by
  fun_induction Cursor.quoted quote c generalizing d with
  | case1 c e hc =>
    obtain ⟨e', hd, -, he⟩ := hR.next_eq h hc
    rw [quoted_eq quote d, hd]
    exact ⟨rfl, hR.report _ rfl (hR.forget he)⟩
  | case2 c e f hf hc hq ih =>
    obtain ⟨e', hd, he, -⟩ := hR.next_eq h hc
    obtain ⟨f', hf', hff⟩ := (hR.goesOn quote he).exists_eq hf
    rw [quoted_eq quote d, hd]
    simpa [hq, hf'] using ih hff
  | case3 c e f hf hc hq =>
    obtain ⟨e', hd, he, -⟩ := hR.next_eq h hc
    obtain ⟨f', hf', hff⟩ := (hR.goesOn quote he).exists_eq hf
    rw [quoted_eq quote d, hd]
    simpa [hq, hf'] using ⟨rfl, hff⟩
  | case4 c b e hc h₁ h₂ h₃ f hf ih =>
    obtain ⟨e', hd, he, -⟩ := hR.next_eq h hc
    obtain ⟨f', hf', hff⟩ := (hR.escape he).exists_eq hf
    rw [quoted_eq quote d, hd]
    simpa [h₁, h₂, h₃, hf'] using ih hff
  | case5 c b e hc h₁ h₂ h₃ f hf =>
    obtain ⟨e', hd, he, -⟩ := hR.next_eq h hc
    obtain ⟨f', hf', hff⟩ := (hR.escape he).exists_eq hf
    rw [quoted_eq quote d, hd]
    simpa [h₁, h₂, h₃, hf'] using ⟨rfl, hR.report _ rfl hff⟩
  | case6 c b e hc h₁ h₂ h₃ ih =>
    obtain ⟨e', hd, he, -⟩ := hR.next_eq h hc
    rw [quoted_eq quote d, hd]
    simpa [h₁, h₂, h₃] using ih (hR.keep b he)
  | case7 c e hc =>
    obtain ⟨e', hd, he, -⟩ := hR.next_eq h hc
    rw [quoted_eq quote d, hd]
    exact ⟨rfl, hR.report _ rfl he⟩

theorem piece (hR : Reading R) (b : UInt8) (h : R c d) : Both R (c.piece b) (d.piece b) := by
  unfold Cursor.piece
  split
  · exact ⟨congrArg some (hR.quoted b h).1, (hR.quoted b h).2⟩
  · split
    · exact hR.slash h
    · split
      · exact ⟨congrArg some (hR.number b h).1, (hR.number b h).2⟩
      · split
        · exact ⟨congrArg some (hR.word b h).1, (hR.word b h).2⟩
        · exact hR.punctuation b h

end Reading

namespace Lockstep

theorem begin (hR : Lockstep R) (h : R c d) : R c.begin d.begin :=
  hR.mark (hR.forget (hR.skipSpace h))

/-- **What every step keeps, a whole token keeps,** and its kind is the same. -/
theorem token (hR : Lockstep R) (h : R c d) : Both R c.token d.token := by
  fun_induction Cursor.token c generalizing d with
  | case1 c b e hc kind f hf =>
    obtain ⟨e', hd, he, -⟩ := hR.next_eq (hR.begin h) hc
    obtain ⟨f', hf', hff⟩ := (hR.piece b he).exists_eq hf
    rw [token_eq d, hd]
    simpa [hf'] using ⟨rfl, hff⟩
  | case2 c b e hc f hf ih =>
    obtain ⟨e', hd, he, -⟩ := hR.next_eq (hR.begin h) hc
    obtain ⟨f', hf', hff⟩ := (hR.piece b he).exists_eq hf
    rw [token_eq d, hd]
    simpa [hf'] using ih hff
  | case3 c e hc =>
    obtain ⟨e', hd, he, -⟩ := hR.next_eq (hR.begin h) hc
    rw [token_eq d, hd]
    exact ⟨rfl, he⟩

end Lockstep

end

end Cursor
end ClassIndex
