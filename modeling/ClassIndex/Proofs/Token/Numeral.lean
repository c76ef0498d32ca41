/-
# Numerals

A numeral is what a number is read from, whether or not it turns out to be malformed. As patterns:

| form | numeral | malformed |
| --- | --- | --- |
| hexadecimal | `0[xX][0-9a-fA-F]*` | without digits |
| octal | `0[0-9]+` | with an 8 or a 9 |
| whole | `0`, `[1-9][0-9]*` | |
| float | a whole one, then `\.[0-9]*([eE][+-]?[0-9]*)?` | with a letter, without digits behind |

The readers take the longest numeral that bytes begin with. What is longest of a pattern is found
part by part, for the next byte always tells whether a part goes on (`Longest.append`).
-/

import ClassIndex.Proofs.Byte
import ClassIndex.Proofs.Token.Spelling

namespace ClassIndex

/-- A row is of a form, and no longer first part of it with what follows it is. -/
structure Longest {α : Type} (L : List α → Prop) (v r : List α) : Prop where
  form : L v
  longest : ∀ q, L q → q <+: v ++ r → q <+: v

namespace Longest

variable {α : Type} {L L' E : List α → Prop} {P : α → Bool} {v r ds e : List α} {b : α}

/-- Nothing is longest where no form goes on with what follows. -/
theorem nil (hL : L []) (h : ∀ b ∈ r.head?, ∀ q, ¬ L (b :: q)) : Longest L [] r where
  form := hL
  longest q hq hprefix := by
    cases q with
    | nil => exact List.prefix_refl []
    | cons b q =>
      obtain ⟨t, ht⟩ := hprefix
      exact absurd hq (h b (by rw [← show _ = r from ht]; rfl) q)

/-- What is longest of a form is longest of another that is no more as far as it matters. -/
theorem of_form (h : Longest L v r) (hform : L' v) (hsub : ∀ q, L' q → q <+: v ++ r → L q) :
    Longest L' v r :=
  ⟨hform, fun q hq hprefix => h.longest q (hsub q hq hprefix) hprefix⟩

theorem cons (h : Longest L v r) (hiff : ∀ q, L' (b :: q) ↔ L q) : Longest L' (b :: v) r where
  form := (hiff v).2 h.form
  longest q hq hprefix := by
    cases q with
    | nil => exact List.nil_prefix
    | cons b' q =>
      rw [List.cons_append] at hprefix
      obtain ⟨rfl, hrest⟩ := List.cons_prefix_cons.1 hprefix
      exact List.cons_prefix_cons.2 ⟨rfl, h.longest q ((hiff q).1 hq) hrest⟩

/-- **A run, and the longest of what may follow it,** which does not go on with the run. -/
theorem append (h : Longest E e r) (hds : ∀ d ∈ ds, P d = true)
    (hnext : ∀ b ∈ (e ++ r).head?, P b = false) (hE : ∀ b q, E (b :: q) → P b = false)
    (hiff : ∀ q, L q ↔ ∃ ds e, (∀ d ∈ ds, P d = true) ∧ E e ∧ q = ds ++ e) :
    Longest L (ds ++ e) r where
  form := (hiff _).2 ⟨ds, e, hds, h.form, rfl⟩
  longest q hq hprefix := by
    obtain ⟨ds', e', hds', he', rfl⟩ := (hiff q).1 hq
    rw [List.append_assoc] at hprefix
    have hrun : ds' <+: ds ++ (e ++ r) := (List.prefix_append ds' e').trans hprefix
    rcases List.prefix_or_prefix_of_prefix hrun (List.prefix_append ds (e ++ r)) with
      ⟨t, rfl⟩ | ⟨t, rfl⟩
    · -- the other run is no longer
      rw [List.append_assoc, List.prefix_append_right_inj] at hprefix
      rw [List.append_assoc, List.prefix_append_right_inj]
      cases e' with
      | nil => exact List.nil_prefix
      | cons b e' =>
        cases t with
        | nil => exact h.longest _ he' hprefix
        | cons c t =>
          obtain ⟨rfl, -⟩ := List.cons_prefix_cons.1 hprefix
          have hin := hds b (by simp)
          rw [hE b e' he'] at hin
          cases hin
    · -- nor is it shorter
      rw [List.append_assoc, List.prefix_append_right_inj] at hprefix
      rw [List.append_assoc, List.prefix_append_right_inj]
      cases t with
      | nil => exact h.longest _ he' hprefix
      | cons c t =>
        obtain ⟨u, hu⟩ := hprefix
        have hin := hds' c (by simp)
        rw [hnext c (by rw [← hu]; rfl)] at hin
        cases hin

/-- The longest run of a class. -/
theorem run (P : α → Bool) (r : List α) :
    Longest (fun q => ∀ d ∈ q, P d = true) (r.takeWhile P) (r.dropWhile P) := by
  have hnil : Longest (· = []) [] (r.dropWhile P) := nil rfl nofun
  have hrow : ∀ d ∈ r.takeWhile P, P d = true := List.all_eq_true.1 List.all_takeWhile
  have hrun := hnil.append (L := fun q => ∀ d ∈ q, P d = true) hrow
    (fun b hb => by
      have := List.head?_dropWhile_not P r
      rw [show (r.dropWhile P).head? = some b from hb] at this
      simpa using this) nofun
    (fun q => ⟨fun hq => ⟨q, [], hq, rfl, (List.append_nil q).symm⟩,
      by rintro ⟨ds, -, hds, rfl, rfl⟩; rwa [List.append_nil]⟩)
  rwa [List.append_nil] at hrun

end Longest

namespace Token

/-- A sign or none, and digits or none. -/
inductive Signed : List UInt8 → Prop where
  | mk {sign ds : List UInt8} (hsign : sign = [] ∨ sign = [0x2b] ∨ sign = [0x2d])
    (hds : ∀ d ∈ ds, Byte.isDigit d = true) : Signed (sign ++ ds)

/-- An exponent, perhaps without digits, or none. -/
inductive Scale : List UInt8 → Prop where
  | none : Scale []
  | some {x : UInt8} {p : List UInt8} (hx : x = 0x65 ∨ x = 0x45) (hp : Signed p) : Scale (x :: p)

/-- What may stand behind the point of a float. -/
inductive Fraction : List UInt8 → Prop where
  | mk {ds e : List UInt8} (hds : ∀ d ∈ ds, Byte.isDigit d = true) (he : Scale e) :
    Fraction (ds ++ e)

/-- What may stand behind the digits of a whole numeral. -/
inductive Pointed : List UInt8 → Prop where
  | none : Pointed []
  | some {f : List UInt8} (hf : Fraction f) : Pointed (0x2e :: f)

/-- What a number is read from. -/
inductive Numeral : List UInt8 → Prop where
  | hex {x : UInt8} {ds : List UInt8} (hx : x = 0x78 ∨ x = 0x58)
    (hds : ∀ d ∈ ds, Byte.isHexDigit d = true) : Numeral (0x30 :: x :: ds)
  | octal {ds : List UInt8} (hne : ds ≠ []) (hds : ∀ d ∈ ds, Byte.isDigit d = true) :
    Numeral (0x30 :: ds)
  | whole {w : List UInt8} (hw : Whole w) : Numeral w
  | float {w f : List UInt8} (hw : Whole w) (hf : Fraction f) : Numeral (w ++ 0x2e :: f)

/-- A numeral is malformed, and this is said of it. -/
inductive Malformed : List UInt8 → String → Prop where
  | hex {x : UInt8} (hx : x = 0x78 ∨ x = 0x58) : Malformed [0x30, x] "malformed hex number"
  | octal {ds : List UInt8} {d : UInt8} (hds : ∀ d ∈ ds, Byte.isDigit d = true) (hd : d ∈ ds)
    (hhigh : d = 0x38 ∨ d = 0x39) :
    Malformed (0x30 :: ds) ("malformed octal number: " ++ Text.lossy (0x30 :: ds))
  | float {w ds sign : List UInt8} {x : UInt8} (hw : Whole w)
    (hds : ∀ d ∈ ds, Byte.isDigit d = true) (hx : x = 0x65 ∨ x = 0x45)
    (hsign : sign = [] ∨ sign = [0x2b] ∨ sign = [0x2d]) :
    Malformed (w ++ 0x2e :: (ds ++ x :: sign))
      ("malformed float number: " ++ Text.lossy (w ++ 0x2e :: (ds ++ x :: sign)))

variable {b x : UInt8} {q : List UInt8}

/-! ## The first byte of a part -/

theorem signed_cons (hb : b = 0x2b ∨ b = 0x2d) :
    Signed (b :: q) ↔ ∀ d ∈ q, Byte.isDigit d = true := by
  constructor
  · generalize hq : b :: q = p
    rintro ⟨rfl | rfl | rfl, hds⟩
    · subst hq
      have hdigit := hds b List.mem_cons_self
      rcases hb with rfl | rfl <;> cases hdigit
    all_goals
      obtain ⟨-, rfl⟩ := List.cons.inj hq
      exact hds
  · intro hds
    rcases hb with rfl | rfl
    · exact @Signed.mk [0x2b] q (by simp) hds
    · exact @Signed.mk [0x2d] q (by simp) hds

theorem Signed.digits (h : Signed q) (hhead : ∀ b ∈ q.head?, b ≠ 0x2b ∧ b ≠ 0x2d) :
    ∀ d ∈ q, Byte.isDigit d = true := by
  obtain ⟨rfl | rfl | rfl, hds⟩ := h
  · exact hds
  · exact absurd rfl (hhead _ rfl).1
  · exact absurd rfl (hhead _ rfl).2

theorem scale_cons (hx : x = 0x65 ∨ x = 0x45) : Scale (x :: q) ↔ Signed q := by
  constructor
  · rintro (_ | ⟨-, hp⟩)
    exact hp
  · exact .some hx

theorem Scale.letter (h : Scale (x :: q)) : x = 0x65 ∨ x = 0x45 := by
  cases h with
  | some hx => exact hx

theorem Scale.not_isDigit (h : Scale (x :: q)) : Byte.isDigit x = false := by
  rcases h.letter with rfl | rfl <;> rfl

theorem fraction_iff :
    Fraction q ↔ ∃ ds e, (∀ d ∈ ds, Byte.isDigit d = true) ∧ Scale e ∧ q = ds ++ e := by
  constructor
  · rintro ⟨hds, he⟩
    exact ⟨_, _, hds, he, rfl⟩
  · rintro ⟨ds, e, hds, he, rfl⟩
    exact .mk hds he

theorem pointed_cons : Pointed (0x2e :: q) ↔ Fraction q := by
  constructor
  · rintro (_ | hf)
    exact hf
  · exact .some

theorem Pointed.point (h : Pointed (b :: q)) : b = 0x2e := by
  cases h
  rfl

/-- A numeral that opens with a zero goes on in one of three ways. -/
theorem Numeral.zero_cases (h : Numeral (0x30 :: b :: q)) :
    ((b = 0x78 ∨ b = 0x58) ∧ ∀ d ∈ q, Byte.isHexDigit d = true) ∨ (b = 0x2e ∧ Fraction q) ∨
      ∀ d ∈ b :: q, Byte.isDigit d = true := by
  generalize hp : 0x30 :: b :: q = p at h
  cases h with
  | hex hx hds =>
    obtain ⟨rfl, rfl⟩ := List.cons.inj (List.cons.inj hp).2
    exact .inl ⟨hx, hds⟩
  | octal _ hds =>
    obtain ⟨-, rfl⟩ := List.cons.inj hp
    exact .inr (.inr hds)
  | whole hw =>
    cases hw with
    | zero => cases hp
    | digits _ hne => exact absurd (List.cons.inj hp).1.symm hne
  | float hw hf =>
    cases hw with
    | zero =>
      obtain ⟨rfl, rfl⟩ := List.cons.inj (List.cons.inj hp).2
      exact .inr (.inl ⟨rfl, hf⟩)
    | digits _ hne => exact absurd (List.cons.inj hp).1.symm hne

theorem numeral_hex (hx : x = 0x78 ∨ x = 0x58) :
    Numeral (0x30 :: x :: q) ↔ ∀ d ∈ q, Byte.isHexDigit d = true := by
  constructor
  · intro h
    rcases h.zero_cases with ⟨-, hds⟩ | ⟨hpoint, -⟩ | hds
    · exact hds
    · rcases hx with rfl | rfl <;> cases hpoint
    · have hdigit := hds x List.mem_cons_self
      rcases hx with rfl | rfl <;> cases hdigit
  · exact .hex hx

theorem numeral_point : Numeral (0x30 :: 0x2e :: q) ↔ Fraction q := by
  constructor
  · intro h
    rcases h.zero_cases with ⟨hx | hx, -⟩ | ⟨-, hf⟩ | hds
    · cases hx
    · cases hx
    · exact hf
    · cases hds 0x2e List.mem_cons_self
  · exact .float .zero

/-- A numeral that opens with another digit is a run of digits, perhaps with a point behind it. -/
theorem numeral_cons (hb : Byte.isDigit b = true) (hne : b ≠ 0x30) :
    Numeral (b :: q) ↔
      ∃ ds e, (∀ d ∈ ds, Byte.isDigit d = true) ∧ Pointed e ∧ q = ds ++ e := by
  constructor
  · generalize hp : b :: q = p
    intro h
    cases h with
    | hex | octal => exact absurd (List.cons.inj hp).1 hne
    | whole hw =>
      cases hw with
      | zero => exact absurd (List.cons.inj hp).1 hne
      | digits _ _ hds =>
        obtain ⟨-, rfl⟩ := List.cons.inj hp
        exact ⟨_, [], hds, .none, (List.append_nil _).symm⟩
    | float hw hf =>
      cases hw with
      | zero => exact absurd (List.cons.inj hp).1 hne
      | digits _ _ hds =>
        obtain ⟨-, rfl⟩ := List.cons.inj hp
        exact ⟨_, _, hds, .some hf, rfl⟩
  · rintro ⟨ds, e, hds, _ | hf, rfl⟩
    · exact .whole (by simpa using Whole.digits hb hne hds)
    · exact .float (.digits hb hne hds) hf

/-! ## Malformed numerals -/

/-- A run of a class is told from what follows it. -/
theorem eq_of_run_append {P : UInt8 → Bool} {ds ds' r r' : List UInt8} {b' : UInt8}
    (hds : ∀ d ∈ ds, P d = true) (hds' : ∀ d ∈ ds', P d = true) (hb : P b = false)
    (hb' : P b' = false) (h : ds ++ b :: r = ds' ++ b' :: r') : ds = ds' ∧ b = b' ∧ r = r' := by
  have hrun := congrArg (List.takeWhile P) h
  rw [List.takeWhile_append_of_pos hds, List.takeWhile_append_of_pos hds',
    List.takeWhile_cons_of_neg (by simp [hb]), List.takeWhile_cons_of_neg (by simp [hb']),
    List.append_nil, List.append_nil] at hrun
  subst hrun
  exact ⟨rfl, List.cons.inj (List.append_cancel_left h)⟩

theorem Whole.isDigit_all {w : List UInt8} (h : Whole w) : ∀ d ∈ w, Byte.isDigit d = true := by
  cases h with
  | zero => simp [Byte.isDigit]
  | digits hb _ hds => exact List.forall_mem_cons.2 ⟨hb, hds⟩

theorem signs_begin :
    ∀ p ∈ signs, ∃ b ∈ (Text.utf8 p.1).head?, Byte.isDigit b = false := by
  have hall : ∀ p ∈ signs, (Text.utf8 p.1).head?.any (! Byte.isDigit ·) = true := by decide
  intro p hp
  simpa [Option.any_eq_true] using hall p hp

/-- Where a token begins with a digit, it is spelled as one of the four forms of numbers. -/
theorem Spells.number_cases {kind : Kind} {lexeme : List UInt8} (h : Spells kind q lexeme)
    (hdigit : q.head?.any Byte.isDigit = true) :
    (∃ x ds, ds ≠ [] ∧ (∀ d ∈ ds, Byte.isHexDigit d = true) ∧ (x = 0x78 ∨ x = 0x58) ∧
        q = 0x30 :: x :: ds) ∨
      (∀ d ∈ q, Byte.isOctalDigit d = true) ∧ 2 ≤ q.length ∨ Whole q ∨
      ∃ w ds e, Whole w ∧ (∀ d ∈ ds, Byte.isDigit d = true) ∧ Exponent e ∧
        q = w ++ 0x2e :: (ds ++ e) := by
  have hq : ∀ b ∈ q.head?, Byte.isDigit b = true := by
    intro b hb
    rw [Option.mem_def.1 hb] at hdigit
    exact hdigit
  have hword {b : UInt8} (hb : Byte.beginsWord b = true) (hdigit : Byte.isDigit b = true) :
      False := by
    rw [Byte.isDigit_eq_false_of_beginsWord hb] at hdigit
    cases hdigit
  clear hdigit
  cases h with
  | word hw =>
    obtain ⟨b, v, hbv, hb, -⟩ := word_of_mem_reserved hw
    exact (hword hb (hq b (by rw [hbv]; rfl))).elim
  | sign hw =>
    obtain ⟨b, hhead, hb⟩ := signs_begin _ hw
    rw [hq b hhead] at hb
    cases hb
  | name hb => exact (hword hb (hq _ rfl)).elim
  | hex hx hne hds => exact .inl ⟨_, _, hne, hds, hx, rfl⟩
  | octal hne hds =>
    refine .inr (.inl ⟨List.forall_mem_cons.2 ⟨by decide, hds⟩, ?_⟩)
    exact Nat.succ_le_succ (List.length_pos_iff.2 hne)
  | whole hw => exact .inr (.inr (.inl hw))
  | float hw hds he => exact .inr (.inr (.inr ⟨_, _, _, hw, hds, he, rfl⟩))
  | quoted => cases hq 0x22 rfl

/-- A letter that marks a form is no digit. -/
theorem letter_not_isDigit (hx : x = 0x78 ∨ x = 0x58 ∨ x = 0x65 ∨ x = 0x45) :
    Byte.isDigit x = false := by
  rcases hx with rfl | rfl | rfl | rfl <;> rfl

/-- A float is told by its point, which is in no numeral of another form. -/
theorem not_all_of_point {p : UInt8 → Bool} (hp : p 0x2e = false) (w r : List UInt8) :
    ¬ ∀ d ∈ w ++ 0x2e :: r, p d = true := by
  intro hall
  rw [hall 0x2e (by simp)] at hp
  cases hp

/-- The digits of an exponent are told from its sign. -/
theorem not_exponent_of_sign {sign ds : List UInt8} (hx : x = 0x65 ∨ x = 0x45)
    (hds : ∀ d ∈ ds, Byte.isDigit d = true)
    (hsign : sign = [] ∨ sign = [0x2b] ∨ sign = [0x2d]) {ds' e : List UInt8}
    (hds' : ∀ d ∈ ds', Byte.isDigit d = true) (he : Exponent e) :
    ds ++ x :: sign ≠ ds' ++ e := by
  intro heq
  have hletter : Byte.isDigit x = false := letter_not_isDigit (.inr (.inr hx))
  cases he with
  | none =>
    rw [List.append_nil] at heq
    rw [hds' x (by rw [← heq]; simp)] at hletter
    cases hletter
  | @some x' sign' es hx' _ hne hes =>
    obtain ⟨-, -, rfl⟩ := eq_of_run_append hds hds' hletter
      (letter_not_isDigit (.inr (.inr hx'))) heq
    obtain ⟨d, es, rfl⟩ := List.exists_cons_of_ne_nil hne
    have hmem : d ∈ sign' ++ d :: es := by simp
    have hdigit := hes d List.mem_cons_self
    rcases hsign with hnil | hplus | hminus
    · simp at hnil
    · rw [hplus, List.mem_singleton] at hmem
      subst hmem
      cases hdigit
    · rw [hminus, List.mem_singleton] at hmem
      subst hmem
      cases hdigit

/-- **A malformed numeral spells no token.** -/
theorem Malformed.not_spells {message : String} {kind : Kind} {lexeme : List UInt8}
    (h : Malformed q message) : ¬ Spells kind q lexeme := by
  intro hs
  cases h with
  | @hex x hx =>
    have hletter : Byte.isDigit x = false := letter_not_isDigit (hx.imp_right .inl)
    rcases hs.number_cases rfl with
      ⟨x', ds, hne, -, -, heq⟩ | ⟨hall, -⟩ | hwhole | ⟨w, ds, e, hw, hds, he, heq⟩
    · exact hne (List.cons.inj (List.cons.inj heq).2).2.symm
    · rw [Byte.isDigit_of_isOctalDigit (hall x (by simp))] at hletter
      cases hletter
    · rw [hwhole.isDigit_all x (by simp)] at hletter
      cases hletter
    · refine not_all_of_point (p := (· != 0x2e)) rfl w (ds ++ e) ?_
      rw [← heq]
      rcases hx with rfl | rfl <;> simp
  | @octal ds d hds hd hhigh =>
    rcases hs.number_cases rfl with
      ⟨x', ds', -, -, hx', heq⟩ | ⟨hall, -⟩ | hwhole | ⟨w, ds', e, hw, hds', he, heq⟩
    · have hdigit := hds x' (by rw [(List.cons.inj heq).2]; simp)
      rw [letter_not_isDigit (hx'.imp_right .inl)] at hdigit
      cases hdigit
    · have hlow := hall d (List.mem_cons_of_mem _ hd)
      rcases hhigh with rfl | rfl <;> cases hlow
    · cases hwhole with
      | zero => cases hd
      | digits _ hne => exact hne rfl
    · refine not_all_of_point (p := Byte.isDigit) rfl w (ds' ++ e) ?_
      rw [← heq]
      exact List.forall_mem_cons.2 ⟨rfl, hds⟩
  | float hw hds hx hsign =>
    rcases hs.number_cases (by cases hw with | zero => rfl | digits hb => exact hb) with
      ⟨x', ds', -, -, hx', heq⟩ | ⟨hall, -⟩ | hwhole | ⟨w', ds', e', hw', hds', he', heq⟩
    · cases hw with
      | zero =>
        obtain ⟨rfl, -⟩ := List.cons.inj (List.cons.inj heq).2
        rcases hx' with hx' | hx' <;> cases hx'
      | digits _ hne => exact hne (List.cons.inj heq).1
    · exact not_all_of_point (by decide) _ _ hall
    · exact not_all_of_point (by decide) _ _ hwhole.isDigit_all
    · obtain ⟨-, -, hrest⟩ := eq_of_run_append hw.isDigit_all hw'.isDigit_all (by decide)
        (by decide) heq
      exact not_exponent_of_sign hx hds hsign hds' he' hrest

end Token
end ClassIndex
