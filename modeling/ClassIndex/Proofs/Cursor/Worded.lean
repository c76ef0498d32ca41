/-
# Faults are told in printed characters

What a source holds enters the wording of a fault escaped or as digits, so a message is printed
whatever the bytes are (`worded_token`):

| fault | taken from the source |
| --- | --- |
| unknown byte, empty escape | one byte, escaped |
| malformed number | its lexeme, which is printed |
| token that does not belong where it stands | the names of kinds |
| any other | nothing |

Only a read failure is told in the words that it comes with.
-/

import ClassIndex.Proofs.Cursor.Graphic
import ClassIndex.Proofs.Cursor.Remarks

namespace ClassIndex

open Text (Printed)

theorem Token.Kind.printed_name (kind : Token.Kind) : Printed kind.name := by
  cases kind <;> decide

theorem Cursor.printed_shown (x : Option UInt8) : Printed (Cursor.shown x) := by
  cases x with
  | none => decide
  | some b => exact Text.printed_escapeByte b

namespace Fault

variable {f : Fault} {lexeme : String}

theorem IsRemark.printed (h : f.IsRemark) : Printed f.message := by
  cases h with
  | unrecognized b =>
    have hpair : Printed (String.ofList (Text.upperHexPair b)) :=
      Text.printed_ofList (Text.isPrinted_upperHexPair b)
    unfold message
    exact ((((by decide : Printed _).append (Text.printed_escapeByte b)).append (by decide)).append
      hpair).append (by decide)
  | badContinuation => decide
  | emptyEscape r x =>
    have hradix : Printed r.text := by cases r <;> decide
    unfold message
    exact ((((((by decide : Printed _).append hradix).append (by decide)).append
      (Cursor.printed_shown x)).append (by decide)).append hradix).append (by decide)
  | unterminatedComment => decide

theorem IsMisspelt.printed (h : f.IsMisspelt lexeme) (hlexeme : Printed lexeme) :
    Printed f.message := by
  cases h with
  | hex => decide
  | octal | float =>
    unfold message
    exact (by decide : Printed _).append hlexeme

/-- A token that does not belong where it stands is told of by the names of kinds. -/
theorem printed_misplaced (h : f.code = "E030") : Printed f.message := by
  cases f with
  | unexpected wanted got =>
    unfold message
    exact ((((by decide : Printed _).append wanted.printed_name).append (by decide)).append
      got.printed_name).append (by decide)
  | noneOf wanted got =>
    have hnames : Printed (String.intercalate ", " (wanted.map (·.name))) :=
      Text.printed_intercalate (by decide)
        (List.forall_mem_map.2 fun kind _ => kind.printed_name)
    unfold message
    exact ((((by decide : Printed _).append hnames).append (by decide)).append
      got.printed_name).append (by decide)
  | notTopLevel got =>
    unfold message
    exact (by decide : Printed _).append got.printed_name
  | _ => exact absurd h (by simp [code])

end Fault

/-- The source, if it fails, fails in printed words. -/
def Source.FailsPrinted (f : Source) : Prop := ∀ message ∈ f.failure?, Printed message

/-- An event tells of a fault in printed words, at a place in a file. -/
def Diagnostic.Event.WordedIn (file : String) (e : Event) : Prop :=
  ∃ (f : Fault) (l : Location), e = f.event l ∧ Printed f.message ∧ l.file = file

namespace Cursor

/-- All faults found so far are told in printed words. -/
structure Worded (name : String) (c : Cursor) : Prop where
  named : c.source.name = name
  fails : c.source.FailsPrinted
  faults : ∀ e ∈ c.faults, e.WordedIn name

namespace Worded

variable {name : String} {b quote : UInt8} {c d : Cursor} {f : Fault}

theorem report (h : Worded name c) (hf : Printed f.message) : Worded name (c.report f) :=
  ⟨h.named, h.fails, List.forall_mem_append.2 ⟨h.faults,
    List.forall_mem_singleton.2 ⟨f, c.source.location, rfl, hf, h.named⟩⟩⟩

theorem next (h : Worded name c) : Worded name c.next.2 := by
  have hname := c.source.name_read.trans h.named
  have hfails : c.source.read.2.FailsPrinted := by
    rw [Source.FailsPrinted, Source.failure_read]
    exact h.fails
  rcases hread : c.source.read with ⟨_ | _ | message, source⟩
  all_goals
    rw [hread] at hname hfails
    simp only [Cursor.next, hread]
  · exact ⟨hname, hfails, h.faults⟩
  · exact ⟨hname, hfails, h.faults⟩
  · have hwords : Printed (Fault.readFailure message).message := by
      unfold Fault.message
      exact (by decide : Printed _).append (h.fails message (Source.failure_of_read hread))
    exact report (c := { c with source }) ⟨hname, hfails, h.faults⟩ hwords

theorem remarking (name : String) : Remarking (Worded name) where
  next := next
  giveBack x h := by cases x <;> exact ⟨h.named, h.fails, h.faults⟩
  lexeme _ h := ⟨h.named, h.fails, h.faults⟩
  report hf h := h.report hf.printed

/-- The readers of numbers, words and signs tell of what they have kept, which is printed. -/
theorem gathers (name : String) : Gathers fun c => Worded name c ∧ Graphic c where
  keep := by
    rintro c d b ⟨hworded, hgraphic⟩ hc hb
    exact ⟨(remarking name).lexeme _ ((remarking name).of_next hworded hc),
      Graphic.gathers.keep hgraphic hc hb⟩
  giveBack := by
    rintro c d x ⟨hworded, hgraphic⟩ hc
    exact ⟨(remarking name).giveBack x ((remarking name).of_next hworded hc),
      Graphic.gathers.giveBack hgraphic hc⟩
  report := by
    rintro c f hf ⟨hworded, hgraphic⟩
    exact ⟨hworded.report (hf.printed (Text.printed_lossy hgraphic)), hgraphic⟩

theorem quoted (h : Worded name c) : Worded name (c.quoted quote).2 := by
  have hP := remarking name
  fun_induction Cursor.quoted quote c with
  | case1 c d hc =>
    exact (hP.giveBack (some 0x0a) (hP.lexeme _ (hP.of_next h hc))).report (by decide)
  | case2 c d e he hc _ ih =>
    have hgoes := hP.goesOn quote (hP.of_next h hc)
    rw [he] at hgoes
    exact ih hgoes
  | case3 c d e he hc =>
    have hgoes := hP.goesOn quote (hP.of_next h hc)
    rwa [he] at hgoes
  | case4 c b d hc _ _ _ e he ih =>
    have hescape := hP.escape (hP.of_next h hc)
    rw [he] at hescape
    exact ih hescape
  | case5 c b d hc _ _ _ e he =>
    have hescape := hP.escape (hP.of_next h hc)
    rw [he] at hescape
    exact hescape.report (by decide)
  | case6 c b d hc _ _ _ ih => exact ih (hP.lexeme _ (hP.of_next h hc))
  | case7 c d hc => exact (hP.of_next h hc).report (by decide)

theorem piece (h : Worded name c) (hl : c.lexeme.toList = []) : Worded name (c.piece b).2 := by
  have hP := remarking name
  have hkeep (hb : Byte.isGraphic b = true) : Worded name (c.keep b) ∧ Graphic (c.keep b) :=
    ⟨hP.lexeme _ h, (Graphic.of_nil hl).push rfl hb⟩
  unfold Cursor.piece
  split
  · exact h.quoted
  · split
    · exact hP.slash h
    · split
      · rename_i hdigit
        exact ((gathers name).number (hkeep (Byte.isGraphic_of_isDigit b hdigit))).1
      · split
        · rename_i hword
          exact ((gathers name).word (hkeep (Byte.isGraphic_of_beginsWord b hword))).1
        · unfold punctuation
          split
          · rename_i single hsingle
            have hall : ∀ p ∈ singles, Byte.isGraphic p.1 = true := by decide
            exact ((gathers name).sign (hkeep (hall _ (mem_singles hsingle))) single).1
          · dsimp only
            split
            · exact hP.report (.unrecognized b) (hP.lexeme _ (hP.lexeme _ h))
            · exact hP.lexeme _ (hP.lexeme _ h)

/-- **Whatever a source holds, the faults of its tokens are told in printed words.** -/
theorem token (h : Worded name c) : Worded name c.token.2 := by
  have hP := remarking name
  have hbegin {c : Cursor} (h : Worded name c) : Worded name c.begin :=
    let hskip := hP.skipSpace h
    ⟨hskip.named, hskip.fails, hskip.faults⟩
  have hlexeme {c d : Cursor} {x : Option UInt8} (hc : c.begin.next = (x, d)) :
      d.lexeme.toList = [] := by
    have hl := c.begin.lexeme_next
    rw [hc] at hl
    exact congrArg Buffer.toList hl
  fun_induction Cursor.token c with
  | case1 c b d hc kind e he =>
    have hpiece := (hP.of_next (hbegin h) hc).piece (b := b) (hlexeme hc)
    rwa [he] at hpiece
  | case2 c b d hc e he ih =>
    have hpiece := (hP.of_next (hbegin h) hc).piece (b := b) (hlexeme hc)
    rw [he] at hpiece
    exact ih hpiece
  | case3 c d hc => exact hP.of_next (hbegin h) hc

end Worded
end Cursor
end ClassIndex
