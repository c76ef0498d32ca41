/-
# Reading numerals

A number is read from the longest numeral that the bytes begin with, whatever follows it
(`Clean.takes_number`). Each reader takes its part of the numeral, and the last of them knows what
to make of the whole:

| reader | takes the longest |
| --- | --- |
| number | numeral |
| zero, whole number | row that makes a numeral behind the first digit |
| fraction | fraction |
| exponent | sign or none, and digits |
| hexadecimal number, octal number, exponent digits | run of its digits |
-/

import ClassIndex.Proofs.Cursor.Clean
import ClassIndex.Proofs.Token.Numeral

namespace ClassIndex
namespace Cursor

open Token (Exponent Fraction Malformed Numeral Pointed Scale Signed Spells Whole)

/-- An event tells that a numeral is malformed, in these words. -/
structure Refuses (message : String) (e : Diagnostic.Event) : Prop where
  level : e.level = .error
  code : e.code = "E022"
  message : e.message = message

/-- A reader has kept a numeral and left what follows. The numeral is spelled as the kind says, or
it is refused. -/
structure Numbered (text r w : List UInt8) (x : Token.Kind × Cursor) : Prop where
  stands : x.2.source.Stands text r
  lexeme : x.2.lexeme.toList = w
  outcome : Spells x.1 w w ∧ x.2.faults = [] ∨
    ∃ message e, Malformed w message ∧ x.1 = .error ∧ x.2.faults = [e] ∧ Refuses message e

/-- Behind what is kept already, a reader takes what is longest of a form, and with it has read a
number. -/
def Takes (text l r : List UInt8) (L : List UInt8 → Prop) (x : Token.Kind × Cursor) : Prop :=
  ∃ v r', r = v ++ r' ∧ Longest L v r' ∧ Numbered text r' (l ++ v) x

section

variable {text r l w v ds : List UInt8} {b x : UInt8} {c : Cursor} {kind : Token.Kind}
  {L M : List UInt8 → Prop}

theorem Clean.numbered (h : Clean text r w c) (hw : Spells kind w w) :
    Numbered text r w (kind, c) :=
  ⟨h.stands, h.lexeme, .inl ⟨hw, h.faults⟩⟩

theorem Clean.refused {f : Fault} (h : Clean text r w c) (hlevel : f.level = .error)
    (hcode : f.code = "E022") (hw : Malformed w f.message) :
    Numbered text r w (.error, c.report f) :=
  ⟨h.stands, h.lexeme, .inr ⟨_, _, hw, rfl, by rw [report, h.faults]; rfl, hlevel, hcode, rfl⟩⟩

theorem Clean.lexeme_text (h : Clean text r w c) : c.lexeme.text = Text.lossy w := by
  rw [Buffer.text, h.lexeme]

/-- A byte more is taken. -/
theorem Takes.cons {y : Token.Kind × Cursor} (h : Takes text (l ++ [b]) r L y)
    (hiff : ∀ q, M (b :: q) ↔ L q) : Takes text l (b :: r) M y := by
  obtain ⟨v, r', rfl, hlongest, hnumbered⟩ := h
  exact ⟨b :: v, r', rfl, hlongest.cons hiff, by simpa using hnumbered⟩

/-- A run that another part follows is taken. -/
theorem Takes.append {p : UInt8 → Bool} {y : Token.Kind × Cursor}
    (h : Takes text (l ++ r.takeWhile p) (r.dropWhile p) L y)
    (hform : ∀ b q, L (b :: q) → p b = false)
    (hiff : ∀ q, M q ↔ ∃ ds e, (∀ d ∈ ds, p d = true) ∧ L e ∧ q = ds ++ e) :
    Takes text l r M y := by
  obtain ⟨e, r', hr, hlongest, hnumbered⟩ := h
  refine ⟨r.takeWhile p ++ e, r', ?_, ?_, by simpa using hnumbered⟩
  · rw [List.append_assoc, ← hr, List.takeWhile_append_dropWhile]
  · refine hlongest.append (List.all_eq_true.1 List.all_takeWhile) (fun b hb => ?_) hform hiff
    have hhead := List.head?_dropWhile_not p r
    rw [hr, show (e ++ r').head? = some b from hb] at hhead
    simpa using hhead

/-- What is longest of a form is longest of another that the bytes left are no more of. -/
theorem Takes.of_form {y : Token.Kind × Cursor} (h : Takes text l r L y)
    (hform : ∀ q, L q → M q) (hsub : ∀ q, M q → q <+: r → L q) :
    Takes text l r M y := by
  obtain ⟨v, r', rfl, hlongest, hnumbered⟩ := h
  exact ⟨v, r', rfl, hlongest.of_form (hform v hlongest.form) hsub, hnumbered⟩

/-- Nothing more is taken. -/
theorem Numbered.takes_nil {y : Token.Kind × Cursor} (h : Numbered text r l y) (hnil : L [])
    (hr : ∀ b ∈ r.head?, ∀ q, ¬ L (b :: q)) : Takes text l r L y :=
  ⟨[], r, rfl, .nil hnil hr, by rwa [List.append_nil]⟩

/-- There is a byte to read, which may be kept or given back, or there is none. -/
theorem Clean.next_cases (h : Clean text r l c) :
    (∃ d, c.next = (none, d) ∧ r = [] ∧ Clean text r l d) ∨
      ∃ b r' d, c.next = (some b, d) ∧ r = b :: r' ∧ Clean text r' (l ++ [b]) (d.keep b) ∧
        Clean text r l (d.giveBack (some b)) := by
  cases r with
  | nil =>
    obtain ⟨hnone, -, hback⟩ := h.next
    rw [hnone] at hback
    exact .inl ⟨_, Prod.ext hnone rfl, rfl, hback⟩
  | cons b r =>
    obtain ⟨d, hd, hs, hback⟩ := h.next_cons
    exact .inr ⟨b, r, d, hd, rfl, hs.keep b, hback⟩

/-! ## Runs of digits -/

/-- A run is empty just if nothing was kept. -/
theorem Clean.length_keepWhile (p : UInt8 → Bool) (h : Clean text r l c) :
    (c.keepWhile p).lexeme.length = c.lexeme.length ↔ r.takeWhile p = [] := by
  show (c.keepWhile p).lexeme.toList.length = c.lexeme.toList.length ↔ _
  rw [(h.keepWhile p).lexeme, h.lexeme, List.length_append, ← List.length_eq_zero_iff]
  omega

theorem Clean.takes_hexNumber (hx : x = 0x78 ∨ x = 0x58) (h : Clean text r [0x30, x] c) :
    Takes text [0x30, x] r (fun q => ∀ d ∈ q, Byte.isHexDigit d = true) c.hexNumber := by
  refine ⟨_, _, List.takeWhile_append_dropWhile.symm, .run Byte.isHexDigit r, ?_⟩
  have hkept := h.keepWhile Byte.isHexDigit
  have hlength := h.length_keepWhile Byte.isHexDigit
  unfold Cursor.hexNumber
  dsimp only
  split
  · rename_i hlen
    rw [hlength.1 hlen, List.append_nil] at hkept ⊢
    exact hkept.refused rfl rfl (.hex hx)
  · rename_i hlen
    exact hkept.numbered (.hex hx (fun hnil => hlen (hlength.2 hnil))
      (List.all_eq_true.1 List.all_takeWhile))

theorem Clean.takes_octalNumber (hb : Byte.isDigit b = true) (h : Clean text (b :: r) [0x30] c) :
    Takes text [0x30] (b :: r) (fun q => ∀ d ∈ q, Byte.isDigit d = true) c.octalNumber := by
  refine ⟨_, _, List.takeWhile_append_dropWhile.symm, .run Byte.isDigit (b :: r), ?_⟩
  have hkept := h.keepWhile Byte.isDigit
  have hdigits : ∀ d ∈ (b :: r).takeWhile Byte.isDigit, Byte.isDigit d = true :=
    List.all_eq_true.1 List.all_takeWhile
  have hne : (b :: r).takeWhile Byte.isDigit ≠ [] := by
    rw [List.takeWhile_cons_of_pos hb]
    exact List.cons_ne_nil _ _
  generalize (b :: r).takeWhile Byte.isDigit = ds at hkept hdigits hne ⊢
  unfold Cursor.octalNumber
  dsimp only
  rw [hkept.lexeme, hkept.lexeme_text]
  split
  · rename_i hhigh
    obtain ⟨d, hd, hvalue⟩ := List.any_eq_true.1 hhigh
    have hvalue : d = 0x38 ∨ d = 0x39 := by simpa using hvalue
    have hin : d ∈ ds := by
      rcases List.mem_cons.1 hd with rfl | hin
      · rcases hvalue with h | h <;> cases h
      · exact hin
    exact hkept.refused rfl rfl (.octal hdigits hin hvalue)
  · rename_i hlow
    have hoctal : ∀ d ∈ ds, Byte.isOctalDigit d = true := by
      intro d hd
      refine Byte.isOctalDigit_of_isDigit (hdigits d hd) (Bool.eq_false_iff.2 fun hhigh => hlow ?_)
      exact List.any_eq_true.2 ⟨d, List.mem_cons_of_mem _ hd, hhigh⟩
    exact hkept.numbered (.octal hne hoctal)

theorem Clean.takes_exponentDigits {sign : List UInt8} (hw : Whole w)
    (hds : ∀ d ∈ ds, Byte.isDigit d = true) (hx : x = 0x65 ∨ x = 0x45)
    (hsign : sign = [] ∨ sign = [0x2b] ∨ sign = [0x2d])
    (h : Clean text r (w ++ 0x2e :: (ds ++ x :: sign)) c) :
    Takes text (w ++ 0x2e :: (ds ++ x :: sign)) r (fun q => ∀ d ∈ q, Byte.isDigit d = true)
      c.exponentDigits := by
  refine ⟨_, _, List.takeWhile_append_dropWhile.symm, .run Byte.isDigit r, ?_⟩
  have hkept := h.keepWhile Byte.isDigit
  have hlength := h.length_keepWhile Byte.isDigit
  unfold Cursor.exponentDigits
  dsimp only
  split
  · rename_i hlen
    rw [hlength.1 hlen, List.append_nil] at hkept ⊢
    refine hkept.refused rfl rfl ?_
    rw [hkept.lexeme_text]
    exact .float hw hds hx hsign
  · rename_i hlen
    have he : Exponent (x :: (sign ++ r.takeWhile Byte.isDigit)) :=
      .some hx hsign (fun hnil => hlen (hlength.2 hnil)) (List.all_eq_true.1 List.all_takeWhile)
    refine hkept.numbered ?_
    simpa using Spells.float hw hds he

/-! ## Parts of a float -/

/-- A sign is taken with the digits behind it. -/
theorem Clean.takes_exponent (hw : Whole w) (hds : ∀ d ∈ ds, Byte.isDigit d = true)
    (hx : x = 0x65 ∨ x = 0x45) (h : Clean text r (w ++ 0x2e :: (ds ++ [x])) c) :
    Takes text (w ++ 0x2e :: (ds ++ [x])) r Signed c.exponent := by
  have hunsigned {d : Cursor} (hd : Clean text r (w ++ 0x2e :: (ds ++ [x])) d)
      (hr : ∀ b ∈ r.head?, b ≠ 0x2b ∧ b ≠ 0x2d) :
      Takes text (w ++ 0x2e :: (ds ++ [x])) r Signed d.exponentDigits := by
    refine (hd.takes_exponentDigits hw hds hx (.inl rfl)).of_form (fun q hq => .mk (.inl rfl) hq)
      fun q hq hprefix => hq.digits fun b hb => hr b ?_
    obtain ⟨t, rfl⟩ := hprefix
    rw [List.head?_append, Option.mem_def.1 hb]
    rfl
  unfold Cursor.exponent
  rcases h.next_cases with ⟨d, hd, rfl, hs⟩ | ⟨b, r', d, hd, rfl, hs, hback⟩
  · simp only [hd]
    exact hunsigned hs nofun
  · simp only [hd]
    split
    · rename_i hb
      have hb : b = 0x2b ∨ b = 0x2d := by simpa using hb
      have hsign : [b] = [] ∨ [b] = [0x2b] ∨ [b] = [0x2d] := by simpa using hb
      have htakes := Clean.takes_exponentDigits hw hds hx hsign (by simpa using hs)
      refine Takes.cons (L := fun q => ∀ d ∈ q, Byte.isDigit d = true) ?_
        fun q => Token.signed_cons hb
      simpa using htakes
    · rename_i hb
      refine hunsigned hback ?_
      rintro b' hb'
      obtain rfl : b = b' := by simpa using hb'
      simpa using hb

/-- Digits are taken with the exponent behind them. -/
theorem Clean.takes_fraction (hw : Whole w) (h : Clean text r (w ++ [0x2e]) c) :
    Takes text (w ++ [0x2e]) r Fraction c.fraction := by
  refine Takes.append (p := Byte.isDigit) (L := Scale) ?_ (fun b q hq => hq.not_isDigit)
    fun q => Token.fraction_iff
  have hdigits : ∀ d ∈ r.takeWhile Byte.isDigit, Byte.isDigit d = true :=
    List.all_eq_true.1 List.all_takeWhile
  have hkept := h.keepWhile Byte.isDigit
  generalize r.takeWhile Byte.isDigit = ds at hdigits hkept ⊢
  generalize r.dropWhile Byte.isDigit = r at hkept ⊢
  have hwhole : Spells .floatNumber (w ++ [0x2e] ++ ds) (w ++ [0x2e] ++ ds) := by
    simpa using Spells.float hw hdigits .none
  unfold Cursor.fraction
  rcases hkept.next_cases with ⟨d, hd, rfl, hs⟩ | ⟨b, r', d, hd, rfl, hs, hback⟩
  · simp only [hd]
    exact (hs.numbered hwhole).takes_nil .none nofun
  · simp only [hd]
    split
    · rename_i hb
      have hb : b = 0x65 ∨ b = 0x45 := by simpa using hb
      refine Takes.cons (L := Signed) ?_ fun q => Token.scale_cons hb
      have htakes := Clean.takes_exponent hw hdigits hb (by simpa using hs)
      simpa using htakes
    · rename_i hb
      refine (hback.numbered hwhole).takes_nil .none ?_
      rintro b' hb' q hq
      obtain rfl : b = b' := by simpa using hb'
      exact hb (by simpa using hq.letter)

/-! ## Numbers -/

/-- The digits are taken, with the point behind them and its fraction. -/
theorem Clean.takes_wholeNumber (hb : Byte.isDigit b = true) (hne : b ≠ 0x30)
    (h : Clean text r [b] c) : Takes text [b] r (fun q => Numeral (b :: q)) c.wholeNumber := by
  refine Takes.append (p := Byte.isDigit) (L := Pointed) ?_
    (fun b q hq => by rw [hq.point]; rfl) fun q => Token.numeral_cons hb hne
  have hwhole : Whole ([b] ++ r.takeWhile Byte.isDigit) :=
    .digits hb hne (List.all_eq_true.1 List.all_takeWhile)
  have hkept := h.keepWhile Byte.isDigit
  generalize r.dropWhile Byte.isDigit = r at hkept ⊢
  unfold Cursor.wholeNumber
  rcases hkept.next_cases with ⟨d, hd, rfl, hs⟩ | ⟨b', r', d, hd, rfl, hs, hback⟩
  · simp only [hd]
    exact (hs.numbered (.whole hwhole)).takes_nil .none nofun
  · simp only [hd]
    split
    · rename_i hb'
      subst hb'
      exact (hs.takes_fraction hwhole).cons fun q => Token.pointed_cons
    · rename_i hb'
      refine (hback.numbered (.whole hwhole)).takes_nil .none ?_
      rintro x hx q hq
      obtain rfl : b' = x := by simpa using hx
      exact hb' hq.point

/-- Behind a zero, a letter, a point or a digit says which form the numeral is of. -/
theorem Clean.takes_zeroNumber (h : Clean text r [0x30] c) :
    Takes text [0x30] r (fun q => Numeral (0x30 :: q)) c.zeroNumber := by
  unfold Cursor.zeroNumber
  rcases h.next_cases with ⟨d, hd, rfl, hs⟩ | ⟨b, r', d, hd, rfl, hs, hback⟩
  · simp only [hd]
    exact (hs.numbered (.whole .zero)).takes_nil (.whole .zero) nofun
  · simp only [hd]
    split
    · rename_i hb
      have hb : b = 0x78 ∨ b = 0x58 := by simpa using hb
      exact (hs.takes_hexNumber hb).cons fun q => Token.numeral_hex hb
    split
    · rename_i hb
      subst hb
      exact (hs.takes_fraction .zero).cons fun q => Token.numeral_point
    rename_i hletter hpoint
    have hdigits {q : List UInt8} (hq : Numeral (0x30 :: b :: q)) :
        ∀ d ∈ b :: q, Byte.isDigit d = true := by
      rcases hq.zero_cases with ⟨hx, -⟩ | ⟨hb, -⟩ | hdigits
      · exact absurd (by simpa using hx) hletter
      · exact absurd hb hpoint
      · exact hdigits
    split
    · rename_i hb
      refine (hback.takes_octalNumber hb).of_form (fun q hq => ?_) fun q hq hprefix => ?_
      · cases q with
        | nil => exact .whole .zero
        | cons d q => exact .octal (List.cons_ne_nil d q) hq
      · cases q with
        | nil => exact List.forall_mem_nil _
        | cons d q =>
          obtain ⟨rfl, -⟩ := List.cons_prefix_cons.1 hprefix
          exact hdigits hq
    · rename_i hb
      refine (hback.numbered (.whole .zero)).takes_nil (.whole .zero) ?_
      rintro b' hb' q hq
      obtain rfl : b = b' := by simpa using hb'
      exact hb (hdigits hq b List.mem_cons_self)

/-- **A number is read from the longest numeral that is left.** -/
theorem Clean.takes_number (hb : Byte.isDigit b = true) (h : Clean text r [] c) :
    Takes text [] (b :: r) Numeral (c.number b) := by
  refine Takes.cons (L := fun q => Numeral (b :: q)) ?_ fun q => .rfl
  unfold Cursor.number
  split
  · rename_i hzero
    subst hzero
    exact (h.keep 0x30).takes_zeroNumber
  · rename_i hne
    exact (h.keep b).takes_wholeNumber hb hne

end

end Cursor
end ClassIndex
