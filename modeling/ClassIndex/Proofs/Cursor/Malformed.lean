/-
# A malformed token is reported once

A reader answers with a malformed token in a few places, and in each of them it reports why:

| code | reported where |
| --- | --- |
| `E021` | a string meets the end of its source |
| `E022` | a number of any form lacks digits, or has a wrong one |
| `E023` | a string meets the end of its line |

What else it reports, of comments, escapes, continuations, unknown bytes and of the source itself,
is no reason for a malformed token. So the number of these reports grows by one with every answer of
a malformed token, and by none with every other (`malformed_token`).
-/

import ClassIndex.Proofs.Cursor.Kind
import ClassIndex.Proofs.Cursor.Remarks

namespace ClassIndex

/-- The codes under which a malformed token is reported. -/
def malformedCodes : List String := ["E021", "E022", "E023"]

/-- A diagnostic that reports a malformed token. -/
def Diagnostic.Event.isMalformed (e : Event) : Bool := malformedCodes.contains e.code

/-- A fault that makes a token malformed. -/
def Fault.isMalformed (f : Fault) : Bool := malformedCodes.contains f.code

theorem Fault.IsRemark.isMalformed {f : Fault} (h : f.IsRemark) : f.isMalformed = false := by
  cases h <;> rfl

namespace Cursor

/-- The number of malformed tokens that have been reported. -/
def malformed (c : Cursor) : Nat := c.faults.countP (·.isMalformed)

/-- The number of malformed tokens among the answers of a reader. -/
def errorsOf (kind? : Option Token.Kind) : Nat := if kind? = some .error then 1 else 0

variable {b : UInt8} {x : Option UInt8} {c d : Cursor}

/-! ## Single steps -/

theorem malformed_report (c : Cursor) (f : Fault) :
    (c.report f).malformed = c.malformed + if f.isMalformed then 1 else 0 := by
  rw [malformed, malformed, report, List.countP_append, List.countP_singleton]
  rfl

@[simp] theorem malformed_keep (c : Cursor) (b : UInt8) : (c.keep b).malformed = c.malformed := rfl

@[simp] theorem malformed_giveBack (c : Cursor) (x : Option UInt8) :
    (c.giveBack x).malformed = c.malformed := by
  rw [malformed, faults_giveBack, malformed]

@[simp] theorem malformed_next (c : Cursor) : c.next.2.malformed = c.malformed := by
  unfold next
  split
  · rfl
  · rfl
  · exact malformed_report _ _

theorem malformed_of_next (h : c.next = (x, d)) : d.malformed = c.malformed := by
  rw [← malformed_next c, h]

/-- No remark makes a token malformed. -/
theorem malformed_remarking (n : Nat) : Remarking fun c => c.malformed = n where
  next h := (malformed_next _).trans h
  giveBack x h := (malformed_giveBack _ x).trans h
  lexeme _ h := h
  report hf h := by simp [malformed_report, hf.isMalformed, h]

@[simp] theorem malformed_keepWhile (p : UInt8 → Bool) (c : Cursor) :
    (c.keepWhile p).malformed = c.malformed := by
  fun_induction Cursor.keepWhile p c with
  | case1 c b d hc _ ih => rw [ih, malformed_keep, malformed_of_next hc]
  | case2 c b d hc => rw [malformed_giveBack, malformed_of_next hc]
  | case3 c d hc => exact malformed_of_next hc

/-! ## Numbers, words and signs -/

/-- A reader that has answered with a kind has reported a malformed token just if this is one. -/
def Reports (c : Cursor) (answer : Token.Kind × Cursor) : Prop :=
  answer.2.malformed = c.malformed + errorsOf (some answer.1)

theorem Reports.of_eq {kind : Token.Kind} (hd : d.malformed = c.malformed) (hkind : kind ≠ .error) :
    c.Reports (kind, d) := by
  simp [Reports, errorsOf, hd, hkind]

theorem Reports.of_fault {f : Fault} (hd : d.malformed = c.malformed) (hf : f.isMalformed = true) :
    c.Reports (.error, d.report f) := by
  simp [Reports, errorsOf, malformed_report, hd, hf]

theorem Reports.trans {answer : Token.Kind × Cursor} (hd : d.malformed = c.malformed)
    (h : d.Reports answer) : c.Reports answer := by
  rwa [Reports, hd] at h

theorem hexNumber_reports (c : Cursor) : c.Reports c.hexNumber := by
  unfold hexNumber
  dsimp only
  split
  · exact .of_fault (malformed_keepWhile ..) (by decide)
  · exact .of_eq (malformed_keepWhile ..) (by decide)

theorem octalNumber_reports (c : Cursor) : c.Reports c.octalNumber := by
  unfold octalNumber
  dsimp only
  split
  · exact .of_fault (malformed_keepWhile ..) rfl
  · exact .of_eq (malformed_keepWhile ..) (by decide)

theorem exponentDigits_reports (c : Cursor) : c.Reports c.exponentDigits := by
  unfold exponentDigits
  dsimp only
  split
  · exact .of_fault (malformed_keepWhile ..) rfl
  · exact .of_eq (malformed_keepWhile ..) (by decide)

theorem exponent_reports (c : Cursor) : c.Reports c.exponent := by
  unfold exponent
  split
  · rename_i b d hc
    split
    · exact .trans (malformed_of_next hc) (exponentDigits_reports (d.keep b))
    · exact .trans ((malformed_giveBack ..).trans (malformed_of_next hc)) (exponentDigits_reports _)
  · rename_i d hc
    exact .trans (malformed_of_next hc) (exponentDigits_reports d)

theorem fraction_reports (c : Cursor) : c.Reports c.fraction := by
  have hdigits := malformed_keepWhile Byte.isDigit c
  unfold fraction
  split
  · rename_i b d hc
    have hd := (malformed_of_next hc).trans hdigits
    split
    · exact .trans hd (exponent_reports (d.keep b))
    · exact .of_eq ((malformed_giveBack ..).trans hd) (by decide)
  · rename_i d hc
    exact .of_eq ((malformed_of_next hc).trans hdigits) (by decide)

theorem wholeNumber_reports (c : Cursor) : c.Reports c.wholeNumber := by
  have hdigits := malformed_keepWhile Byte.isDigit c
  unfold wholeNumber
  split
  · rename_i b d hc
    have hd := (malformed_of_next hc).trans hdigits
    split
    · exact .trans hd (fraction_reports (d.keep b))
    · exact .of_eq ((malformed_giveBack ..).trans hd) (by decide)
  · rename_i d hc
    exact .of_eq ((malformed_of_next hc).trans hdigits) (by decide)

theorem zeroNumber_reports (c : Cursor) : c.Reports c.zeroNumber := by
  unfold zeroNumber
  split
  · rename_i b d hc
    have hd := malformed_of_next hc
    have hback := (malformed_giveBack d (some b)).trans hd
    split
    · exact .trans hd (hexNumber_reports (d.keep b))
    · split
      · exact .trans hd (fraction_reports (d.keep b))
      · split
        · exact .trans hback (octalNumber_reports _)
        · exact .of_eq hback (by decide)
  · rename_i d hc
    exact .of_eq (malformed_of_next hc) (by decide)

theorem number_reports (first : UInt8) (c : Cursor) : c.Reports (c.number first) := by
  unfold number
  split
  · exact zeroNumber_reports (c.keep first)
  · exact wholeNumber_reports (c.keep first)

theorem word_reports (first : UInt8) (c : Cursor) : c.Reports (c.word first) :=
  .of_eq (malformed_keepWhile Byte.inWord (c.keep first)) (Token.wordKind_ne_error _)

theorem sign_reports {single : Token.Kind} (hsingle : single ≠ .error) (c : Cursor) :
    c.Reports (c.sign single) := by
  unfold sign
  split
  · exact .of_eq rfl hsingle
  · split
    · rename_i b d hc
      have hd := malformed_of_next hc
      split
      · rename_i kind hkind
        have hall : ∀ p ∈ doubles single, p.2 ≠ .error := by cases single <;> decide
        exact .of_eq hd (hall _ (mem_doubles hkind))
      · exact .of_eq ((malformed_giveBack ..).trans hd) hsingle
    · rename_i d hc
      exact .of_eq (malformed_of_next hc) hsingle

/-! ## Strings -/

/-- However many segments and escapes a string has, it is reported as malformed at its end. -/
theorem quoted_reports (quote : UInt8) (c : Cursor) : c.Reports (c.quoted quote) := by
  fun_induction Cursor.quoted quote c with
  | case1 c d hc =>
    have hd := malformed_of_next hc
    exact .of_fault ((malformed_giveBack d.forget _).trans hd) (by decide)
  | case2 c d e he hc _ ih =>
    have hgoes := (malformed_remarking d.malformed).goesOn quote rfl
    rw [he] at hgoes
    exact .trans (hgoes.trans (malformed_of_next hc)) ih
  | case3 c d e he hc =>
    have hgoes := (malformed_remarking d.malformed).goesOn quote rfl
    rw [he] at hgoes
    exact .of_eq (hgoes.trans (malformed_of_next hc)) (by decide)
  | case4 c b d hc _ _ _ e he ih =>
    have hescape := (malformed_remarking d.malformed).escape rfl
    rw [he] at hescape
    exact .trans (hescape.trans (malformed_of_next hc)) ih
  | case5 c b d hc _ _ _ e he =>
    have hescape := (malformed_remarking d.malformed).escape rfl
    rw [he] at hescape
    exact .of_fault (hescape.trans (malformed_of_next hc)) (by decide)
  | case6 c b d hc _ _ _ ih => exact .trans (malformed_of_next hc) ih
  | case7 c d hc => exact .of_fault (malformed_of_next hc) (by decide)

/-! ## Tokens -/

theorem slash_ne_error (c : Cursor) : c.slash.1 ≠ some .error := by
  unfold slash
  split
  · split
    · exact nofun
    · split
      · exact nofun
      · simp
  · simp

theorem malformed_punctuation (first : UInt8) (c : Cursor) :
    (c.punctuation first).2.malformed = c.malformed + errorsOf (c.punctuation first).1 := by
  unfold punctuation
  split
  · rename_i kind hkind
    have hall : ∀ p ∈ singles, p.2 ≠ .error := by decide
    exact sign_reports (hall _ (mem_singles hkind)) (c.keep first)
  · dsimp only
    split
    · exact malformed_report _ (.unrecognized first)
    · rfl

theorem malformed_piece (b : UInt8) (c : Cursor) :
    (c.piece b).2.malformed = c.malformed + errorsOf (c.piece b).1 := by
  unfold piece
  split
  · exact quoted_reports b c
  · split
    · rw [errorsOf, if_neg (slash_ne_error c), Nat.add_zero]
      exact (malformed_remarking c.malformed).slash rfl
    · split
      · exact number_reports b c
      · split
        · exact word_reports b c
        · exact malformed_punctuation b c

/-- **A malformed token is reported once, and no other token is reported as malformed,** whatever
else the reader has passed over. -/
theorem malformed_token (c : Cursor) :
    c.token.2.malformed = c.malformed + errorsOf c.token.1 := by
  have hbegin (c : Cursor) : c.begin.malformed = c.malformed :=
    (malformed_remarking c.malformed).skipSpace rfl
  fun_induction Cursor.token c with
  | case1 c b d hc kind e he =>
    have hpiece := malformed_piece b d
    rw [he] at hpiece
    rw [hpiece, malformed_of_next hc, hbegin]
  | case2 c b d hc e he ih =>
    have hpiece := malformed_piece b d
    rw [he] at hpiece
    rw [ih, hpiece, malformed_of_next hc, hbegin]
    rfl
  | case3 c d hc =>
    rw [malformed_of_next hc, hbegin]
    rfl

end Cursor
end ClassIndex
