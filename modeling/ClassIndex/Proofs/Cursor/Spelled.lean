/-
# Reading spelled tokens

A token that is spelled by some bytes, with a blank or nothing behind them, is read back to its
kind and lexeme (`token_of_spells`). A string takes the blanks and comments behind it, too.
-/

import ClassIndex.Proofs.Cursor.Quoted

namespace ClassIndex
namespace Cursor

open Token (Spells)

/-! ## The first byte -/

theorem Begins.of_ne {b : UInt8} (hspace : Byte.isSpace b = false) (hknown : unknown b = false)
    (hb : b ≠ 0x2f) (r : List UInt8) : Begins b r :=
  ⟨hspace, hknown, fun h => absurd h hb, fun h => absurd h hb⟩

/-- A class without blanks and without the slash begins tokens, unless its bytes are unknown. -/
theorem Begins.of_class {p : UInt8 → Bool} {b : UInt8} (hb : p b = true)
    (hp : Byte.blanks.all (fun b => !p b) = true) (hslash : p 0x2f = false)
    (hknown : unknown b = false) (r : List UInt8) : Begins b r :=
  .of_ne (Byte.isSpace_eq_false hp hb) hknown (Byte.ne_of_class hb hslash) r

/-- The kind that the scanner's tables give to a sign. -/
def signKind : List UInt8 → Option Token.Kind
  | [b] => if b = 0x2f then some .slash else single? b
  | [b, b'] => (single? b).bind fun single => (doubles single).lookup b'
  | _ => none

theorem signKind_of_mem : ∀ p ∈ Token.signs, signKind (Text.utf8 p.1) = some p.2 := by
  decide +kernel

theorem starts_of_single {b : UInt8} {kind : Token.Kind} (h : single? b = some kind) :
    (Byte.isSpace b = false ∧ unknown b = false ∧ b ≠ 0x2f) ∧ (b = 0x2c → kind = .comma) := by
  have hall : ∀ p ∈ singles,
      (Byte.isSpace p.1 = false ∧ p.1 ≠ 0x2f) ∧ (p.1 = 0x2c → p.2 = .comma) := by decide
  obtain ⟨⟨hspace, hslash⟩, hcomma⟩ := hall _ (mem_singles h)
  exact ⟨⟨hspace, by simp [unknown, h], hslash⟩, hcomma⟩

/-- A sign is a slash, one byte, or two. -/
theorem sign_cases {w : String} {kind : Token.Kind} (h : (w, kind) ∈ Token.signs) :
    Text.utf8 w = [0x2f] ∧ kind = .slash ∨ (∃ b, Text.utf8 w = [b] ∧ single? b = some kind) ∨
      ∃ b b' single, Text.utf8 w = [b, b'] ∧ single? b = some single ∧
        (doubles single).lookup b' = some kind := by
  have hk := signKind_of_mem (w, kind) h
  dsimp only at hk
  rcases hw : Text.utf8 w with _ | ⟨b, _ | ⟨b', _ | ⟨x, v⟩⟩⟩
  · simp [hw, signKind] at hk
  · rw [hw, signKind] at hk
    by_cases hb : b = 0x2f
    · rw [if_pos hb] at hk
      exact .inl ⟨by rw [hb], (Option.some.inj hk).symm⟩
    · rw [if_neg hb] at hk
      exact .inr (.inl ⟨b, rfl, hk⟩)
  · rw [hw, signKind] at hk
    obtain ⟨single, hs, hd⟩ := Option.bind_eq_some_iff.1 hk
    exact .inr (.inr ⟨b, b', single, rfl, hs, hd⟩)
  · simp [hw, signKind] at hk

/-- What a token is spelled by begins a token, with a comma only if it is one. -/
theorem begins_of_spells {kind : Token.Kind} {t lexeme r : List UInt8} (h : Spells kind t lexeme)
    (hr : Apart r) :
    ∃ b v, t = b :: v ∧ Begins b (v ++ r) ∧ (b = 0x2c → kind = .comma) := by
  have hword : ∀ {b : UInt8} (v : List UInt8), Byte.beginsWord b = true →
      Begins b (v ++ r) ∧ (b = 0x2c → kind = .comma) := by
    intro b v hb
    refine ⟨.of_class hb (by decide) (by decide) (by simp [unknown, hb]) _, fun hcomma => ?_⟩
    exact absurd hcomma (Byte.ne_of_class hb (by decide))
  have hdigit : ∀ {b : UInt8} (v : List UInt8), Byte.isDigit b = true →
      Begins b (v ++ r) ∧ (b = 0x2c → kind = .comma) := by
    intro b v hb
    refine ⟨.of_class hb (by decide) (by decide) (by simp [unknown, hb]) _, fun hcomma => ?_⟩
    exact absurd hcomma (Byte.ne_of_class hb (by decide))
  cases h with
  | @word w _ hw =>
    obtain ⟨b, v, hbv, hb, -⟩ := Token.word_of_mem_reserved hw
    exact ⟨b, v, hbv, hword v hb⟩
  | @sign w _ hw =>
    rcases sign_cases hw with ⟨hbv, rfl⟩ | ⟨b, hbv, hs⟩ | ⟨b, b', single, hbv, hs, hd⟩
    · refine ⟨0x2f, [], hbv, ⟨by decide, by decide, ?_, ?_⟩, by decide⟩
      · exact fun _ h => absurd (hr _ h) (by decide)
      · exact fun _ h => absurd (hr _ h) (by decide)
    · obtain ⟨⟨h₁, h₂, h₃⟩, h₄⟩ := starts_of_single hs
      exact ⟨b, [], hbv, .of_ne h₁ h₂ h₃ _, h₄⟩
    · obtain ⟨⟨h₁, h₂, h₃⟩, h₄⟩ := starts_of_single hs
      refine ⟨b, [b'], hbv, .of_ne h₁ h₂ h₃ _, fun hb => ?_⟩
      obtain rfl := h₄ hb
      simp [doubles] at hd
  | @name b w hb => exact ⟨b, w, rfl, hword w hb⟩
  | @hex x ds => exact ⟨0x30, x :: ds, rfl, hdigit (x :: ds) (by decide)⟩
  | @octal ds => exact ⟨0x30, ds, rfl, hdigit ds (by decide)⟩
  | whole hw =>
    cases hw with
    | zero => exact ⟨0x30, [], rfl, hdigit [] (by decide)⟩
    | @digits b ds hb => exact ⟨b, ds, rfl, hdigit ds hb⟩
  | float hw =>
    cases hw with
    | zero => exact ⟨0x30, _, rfl, hdigit _ (by decide)⟩
    | @digits b ds hb => exact ⟨b, _, rfl, hdigit _ hb⟩
  | quoted value =>
    exact ⟨0x22, _, rfl, .of_ne (by decide) (by decide) (by decide) _, by decide⟩

/-! ## The whole token -/

section

variable {text r lexeme t : List UInt8} {kind : Token.Kind} {c : Cursor}

/-- What a spelling's first byte begins is read to the spelling's end; a string takes the blanks
and comments behind it, too. -/
theorem piece_of_spells {b : UInt8} {v w : List UInt8} (h : Spells kind (b :: v) lexeme)
    (hc : Clean text (v ++ (w ++ r)) [] c) (hw : Filler Byte.isSpace w) (hapart : Apart (w ++ r))
    (hr : Bare r) (hcomma : kind = .quoted → r.head? ≠ some 0x2c) :
    (c.piece b).1 = some kind ∧
      ∃ w', Filler Byte.isSpace w' ∧ Clean text (w' ++ r) lexeme (c.piece b).2 := by
  -- every token but a string is its own lexeme, and leaves what stands behind it
  have hown : ∀ {x : Token.Kind × Cursor}, c.piece b = (some x.1, x.2) →
      Gives text (w ++ r) lexeme kind x → (c.piece b).1 = some kind ∧
        ∃ w', Filler Byte.isSpace w' ∧ Clean text (w' ++ r) lexeme (c.piece b).2 := by
    intro x hx hgives
    rw [hx]
    exact ⟨congrArg some hgives.1, w, hw, hgives.2⟩
  generalize ht : b :: v = t at h
  cases h with
  | @word u _ hu =>
    obtain ⟨b', v', hbv, hb, hv⟩ := Token.word_of_mem_reserved hu
    obtain ⟨rfl, rfl⟩ := List.cons.inj (ht.trans hbv)
    have hgives := hc.word hv hapart b
    rw [ht, Token.wordKind_of_mem hu] at hgives
    exact hown (piece_word hb c) hgives
  | @sign u _ hu =>
    rcases sign_cases hu with ⟨hbv, rfl⟩ | ⟨b', hbv, hs⟩ | ⟨b', b'', single, hbv, hs, hd⟩
    · obtain ⟨rfl, rfl⟩ := List.cons.inj (ht.trans hbv)
      rw [hbv, piece_slash]
      obtain ⟨hkind, hclean⟩ := hc.slash hapart
      exact ⟨hkind, w, hw, hclean⟩
    · obtain ⟨rfl, rfl⟩ := List.cons.inj (ht.trans hbv)
      have hgives := (hc.keep b).sign hapart kind
      rw [← hbv] at hgives
      exact hown (piece_sign hs c) hgives
    · obtain ⟨rfl, rfl⟩ := List.cons.inj (ht.trans hbv)
      have hgives := (hc.keep b).sign_double hd
      rw [show [] ++ [b] ++ [b''] = Text.utf8 u from hbv.symm] at hgives
      exact hown (piece_sign hs c) hgives
  | name hb hv hfree =>
    obtain ⟨rfl, rfl⟩ := List.cons.inj ht
    have hgives := hc.word hv hapart b
    rw [Token.wordKind_of_not_isReserved hfree] at hgives
    exact hown (piece_word hb c) hgives
  | hex hx hne hds =>
    obtain ⟨rfl, rfl⟩ := List.cons.inj ht
    exact hown (piece_digit (by decide) c) (hc.number_hex hx hne hds hapart)
  | octal hne hds =>
    obtain ⟨rfl, rfl⟩ := List.cons.inj ht
    exact hown (piece_digit (by decide) c) (hc.number_octal hne hds hapart)
  | whole hwhole =>
    subst ht
    exact hown (piece_digit hwhole.isDigit c) (hc.number_whole hwhole hapart)
  | @float u ds e hwhole hds he =>
    obtain ⟨b', u, rfl⟩ := List.exists_cons_of_ne_nil hwhole.ne_nil
    obtain ⟨rfl, rfl⟩ := List.cons.inj ht
    exact hown (piece_digit hwhole.isDigit c) (hc.number_float hwhole hds he hapart)
  | quoted =>
    obtain ⟨rfl, rfl⟩ := List.cons.inj ht
    have hread : Clean text (Token.body (lexeme.map .ofByte) ++ 0x22 :: (w ++ r)) [] c := by
      rw [Token.body_map_ofByte]
      simpa using hc
    obtain ⟨hkind, hclean⟩ :=
      hread.quoted (Token.spaced_map_ofByte lexeme) hw hr (hcomma rfl)
    rw [Token.flatMap_denoted_map_ofByte] at hclean
    rw [piece_quote (.inl rfl)]
    exact ⟨congrArg some hkind, [], .nil, hclean⟩

/-- **A spelled token is read back** from wherever blanks and comments lead to it. -/
theorem token_of_spells {w : List UInt8} (h : Spells kind t lexeme)
    (hs : c.source.Stands text (t ++ (w ++ r))) (hsound : c.source.failure? = none)
    (hfaults : c.faults = []) (hw : Filler Byte.isSpace w) (hapart : Apart (w ++ r)) (hr : Bare r)
    (hcomma : kind = .quoted → r.head? ≠ some 0x2c) :
    ∃ d w', c.token = (some kind, d) ∧ Filler Byte.isSpace w' ∧ Clean text (w' ++ r) lexeme d := by
  obtain ⟨b, v, rfl, hb, -⟩ := begins_of_spells h hapart
  obtain ⟨d, hd, hc⟩ := token_piece hb hs hsound hfaults
  obtain ⟨hkind, w', hw', hclean⟩ := piece_of_spells h hc hw hapart hr hcomma
  exact ⟨_, w', hd.trans (Prod.ext hkind rfl), hw', hclean⟩

end

end Cursor
end ClassIndex
