/-
# Scanning numbers

Where a source goes on with a digit, a call takes the longest numeral that it goes on with
(`scan_numeral`): its bytes are the lexeme, its spelling is the kind, and what follows is left. If
the numeral is malformed, the token is too, and this is all that is reported.
-/

import ClassIndex.Proofs.Cursor.Numeral
import ClassIndex.Proofs.Cursor.Spelled
import ClassIndex.Proofs.Scanner.Account

namespace ClassIndex

open Token (Malformed Numeral Spells)

namespace Cursor

variable {text r : List UInt8} {b : UInt8}

/-- Where a source goes on with a digit, the next token is a number. -/
theorem token_of_digit {f : Source} (warns : Bool) (hb : Byte.isDigit b = true)
    (hs : f.Stands text (b :: r)) (hsound : f.failure? = none) :
    ∃ d, (Scanner.freshCursor warns f).token = (some (d.number b).1, (d.number b).2) ∧
      Clean text r [] d := by
  have hbegins : Begins b r := .of_class hb (by decide) (by decide) (by simp [unknown, hb]) r
  obtain ⟨d, hd, hclean⟩ := token_piece (c := Scanner.freshCursor warns f) hbegins hs hsound rfl
  exact ⟨d, hd.trans (piece_digit hb d), hclean⟩

end Cursor

/-- A text spells one kind only, for the scanner reads it as one. -/
theorem Token.Spells.kind_eq {kind kind' : Token.Kind} {w lexeme lexeme' : List UInt8}
    (h : Spells kind w lexeme) (h' : Spells kind' w lexeme') : kind = kind' := by
  have hapart : Cursor.Apart ([] ++ []) := nofun
  obtain ⟨b, v, rfl, -⟩ := Cursor.begins_of_spells h hapart
  have hclean : Cursor.Clean v (v ++ ([] ++ [])) []
      (Scanner.freshCursor false (.ofBytes "" v none)) :=
    ⟨by rw [List.append_nil, List.append_nil]; exact Source.stands_ofBytes "" v none, rfl, rfl, rfl⟩
  have hkind := (Cursor.piece_of_spells h hclean .nil hapart nofun nofun).1
  have hkind' := (Cursor.piece_of_spells h' hclean .nil hapart nofun nofun).1
  exact Option.some.inj (hkind.symm.trans hkind')

namespace Scanner

variable {texts : List (String × List UInt8)} {s : Scanner} {f : Source} {outer : List Source}

/-- **Numbers are scanned by longest match.** Where a source goes on with a digit, a call takes the
longest numeral: the lexeme is the numeral, the source goes on behind it, and the kind is the one
that the numeral is spelled as, with nothing reported. If it is not spelled as any, it is malformed;
then the token is malformed, and one error that says so is all that is reported. -/
theorem scan_numeral (h : Reached texts s) (hsource : s.sources = f :: outer)
    (hsound : f.failure? = none) (hdigit : f.rest.head?.any Byte.isDigit = true) :
    ∃ p r, f.rest = p ++ r ∧ Longest Numeral p r ∧ s.next.2.lexeme.toList = p ∧
      (∃ g, s.next.2.sources = g :: outer ∧ g.rest = r) ∧
      (∀ kind, Spells kind p p → s.next.1 = kind ∧
        s.next.2.journal.diagnostics = s.journal.diagnostics) ∧
      ((∀ kind, ¬ Spells kind p p) → s.next.1 = .error ∧
        ∃ message e, Malformed p message ∧ Cursor.Refuses message e ∧
          s.next.2.journal.diagnostics = s.journal.diagnostics ++ [e]) := by
  obtain ⟨b, r, hrest⟩ : ∃ b r, f.rest = b :: r := by
    cases hr : f.rest with
    | nil => rw [hr] at hdigit; cases hdigit
    | cons b r => exact ⟨b, r, rfl⟩
  rw [hrest] at hdigit
  have hsounds := h.sound
  rw [hsource] at hsounds
  rcases hsounds with _ | ⟨⟨-, hs⟩, -⟩
  rw [hrest] at hs
  obtain ⟨d, hd, hclean⟩ :=
    Cursor.token_of_digit s.preferences.warnUnrecognized hdigit hs hsound
  have hshows := next_of_some hsource hd
  obtain ⟨p, r', hp, hlongest, hnumbered⟩ := hclean.takes_number hdigit
  refine ⟨p, r', hrest.trans hp, hlongest, hshows.lexeme.trans hnumbered.lexeme,
    ⟨_, hshows.sources, hnumbered.stands.left⟩, fun kind hkind => ?_, fun hnone => ?_⟩
  · rcases hnumbered.outcome with ⟨hspells, hfaults⟩ | ⟨message, e, hmalformed, -⟩
    · refine ⟨hshows.kind.trans ?_, ?_⟩
      · exact hspells.kind_eq hkind
      · rw [hshows.diagnostics, hfaults, List.append_nil]
    · exact absurd hkind hmalformed.not_spells
  · rcases hnumbered.outcome with ⟨hspells, -⟩ | ⟨message, e, hmalformed, herror, hfaults, hrefuses⟩
    · exact absurd hspells (hnone _)
    · refine ⟨hshows.kind.trans herror, message, e, hmalformed, hrefuses, ?_⟩
      rw [hshows.diagnostics, hfaults]

/-- Behind a sign, a float with a letter and a sign of its own, but no digits behind them. -/
theorem scan_numeral_malformed :
    let numeral : List UInt8 := [0x34, 0x2e, 0x65, 0x2b]
    let bytes := 0x3b :: (numeral ++ [0x2b])
    let s := (ofText "a.g" bytes .empty).next.2
    ∃ f, Reached [("a.g", bytes)] s ∧ s.sources = [f] ∧ f.failure? = none ∧
      f.rest = numeral ++ [0x2b] ∧ s.next.2.lexeme.toList = numeral ∧ s.next.1 = .error ∧
      ∃ message e, Malformed numeral message ∧ Cursor.Refuses message e ∧
        s.next.2.journal.diagnostics = s.journal.diagnostics ++ [e] := by
  intro numeral bytes s
  obtain ⟨hsources, hlexeme⟩ :
      s.sources.map (fun f => (f.failure?, f.rest)) = [(none, numeral ++ [0x2b])] ∧
        s.next.2.lexeme.toList = numeral := by
    decide +kernel
  obtain ⟨f, hsource, hf⟩ := List.map_eq_singleton_iff.1 hsources
  have hdepth : s.depth = 1 := by rw [depth, hsource, List.length_singleton]
  obtain ⟨hsound, hrest⟩ := Prod.mk.inj hf
  have hs : Reached [("a.g", bytes)] s := reached_next_ofText hdepth
  have hmalformed : Malformed numeral ("malformed float number: " ++ Text.lossy numeral) :=
    @Malformed.float [0x34] [] [0x2b] 0x65 (.digits rfl (by decide) (by simp)) (by simp) (.inl rfl)
      (.inr (.inl rfl))
  obtain ⟨p, r, -, -, hp, -, -, hrefused⟩ :=
    scan_numeral hs hsource hsound (by rw [hrest]; rfl)
  obtain rfl : numeral = p := hlexeme.symm.trans hp
  obtain ⟨hkind, hmessage⟩ := hrefused fun kind => hmalformed.not_spells
  exact ⟨f, hs, hsource, hsound, hrest, hlexeme, hkind, hmessage⟩

end Scanner
end ClassIndex
