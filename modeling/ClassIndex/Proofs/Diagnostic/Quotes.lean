/-
# What a diagnostic quotes

A line is put together from fixed words, numbers, the name of a source and a message. The fixed
words and the numbers are printed, so a character that is not printed, such as a line feed, is in a
line only where it is in a name or in something that the message quotes (`Told.mem_line_iff`):

| message | what it quotes |
| --- | --- |
| import that is not found | the name as it is, and the paths tried |
| import of a malformed name | the name, escaped |
| file that cannot be opened | the path as it is |
| class that is declared twice | the name of the class |
-/

import ClassIndex.Proofs.Cursor.Worded
import ClassIndex.Proofs.FileTree
import ClassIndex.Proofs.Indexer.Recorded
import ClassIndex.Proofs.SearchPath

namespace ClassIndex

open Diagnostic (Event Journal)
open Text (Printed)

/-! ## Lines -/

namespace Diagnostic.Event

variable {e : Event} {c : Char} {opening : String}

/-- Besides its message, a line is printed, if the name of the file is. -/
theorem mem_placedLine (hc : Text.isPrinted c = false) (hopening : Printed opening)
    (hfile : ∀ file ∈ e.file?, c ∉ file.toList) :
    c ∈ (e.placedLine opening).toList ↔ c ∈ e.message.toList := by
  have hcolon : Printed ": " := by decide
  unfold placedLine
  split
  · rename_i file span hname hspan
    have hnumber (n : Nat) : c ∉ (toString n).toList := (Text.printed_toString n).not_mem hc
    simp only [String.toList_append, List.mem_append, hopening.not_mem hc, hcolon.not_mem hc,
      hfile file hname, hnumber, false_or]
  · rw [(hopening.append hcolon).mem_append hc]

theorem mem_line (h : e.Counted) (hc : Text.isPrinted c = false)
    (hfile : ∀ file ∈ e.file?, c ∉ file.toList) :
    c ∈ e.line.toList ↔ c ∈ e.message.toList := by
  unfold line
  rcases h with h | h
  all_goals
    rw [h]
    dsimp only
  · split
    · exact Text.Printed.mem_append (by decide) hc
    · exact mem_placedLine hc (by decide) hfile
  · exact mem_placedLine hc (by decide) hfile

end Diagnostic.Event

/-! ## What a line may quote -/

/-- An event quotes a text that has a character: the name of an import that is not found, or the
path of a call, which cannot be opened. -/
inductive Diagnostic.Event.Quotes (c : Char) (w : SearchPath) (path : String) (e : Event) : Prop
  | notFound {name : String} : c ∈ name.toList → e.code = "E005" →
      e.message = (ImportError.notFound name (w.tried name)).message → Quotes c w path e
  | notOpened {cause : PathError} : c ∈ path.toList → e.code = "E028" →
      e.message = (OpenError.openFailed path cause.message).message → Quotes c w path e

/-- An event that has a character only where it quotes it. -/
structure Diagnostic.Event.Told (c : Char) (w : SearchPath) (path : String) (e : Event) :
    Prop where
  counted : e.Counted
  file : ∀ file ∈ e.file?, c ∉ file.toList
  quotes : c ∈ e.message.toList → e.Quotes c w path

variable {c : Char} {w : SearchPath} {path : String} {e : Event}

/-- What is quoted is in the message. -/
theorem Diagnostic.Event.Quotes.mem_message (h : e.Quotes c w path) : c ∈ e.message.toList := by
  cases h with
  | notFound hname _ hmessage =>
    rw [hmessage]
    unfold ImportError.message
    simp only [String.toList_append, List.mem_append, hname, or_true, true_or]
  | notOpened hname _ hmessage =>
    rw [hmessage]
    unfold OpenError.message
    simp only [String.toList_append, List.mem_append, hname, or_true, true_or]

/-- **A line has the character just if the event quotes it.** -/
theorem Diagnostic.Event.Told.mem_line_iff (h : e.Told c w path)
    (hc : Text.isPrinted c = false) : c ∈ e.line.toList ↔ e.Quotes c w path := by
  rw [mem_line h.counted hc h.file]
  exact ⟨h.quotes, Quotes.mem_message⟩

/-- Where the path of a call lacks the character, it does not matter which path it is. -/
theorem Diagnostic.Event.Told.of_plain (h : e.Told c w path) (hpath : c ∉ path.toList)
    (path' : String) : e.Told c w path' where
  counted := h.counted
  file := h.file
  quotes hmem := by
    cases h.quotes hmem with
    | notFound hname hcode hmessage => exact .notFound hname hcode hmessage
    | notOpened hname => exact absurd hname hpath

/-- What is told in printed words quotes nothing. -/
theorem Diagnostic.Event.WordedIn.told {file : String} (h : e.WordedIn file)
    (hc : Text.isPrinted c = false) (hfile : c ∉ file.toList) : e.Told c w path := by
  obtain ⟨f, l, rfl, hmessage, rfl⟩ := h
  refine ⟨f.counted l, fun file hmem => ?_, fun hmem => absurd hmem (hmessage.not_mem hc)⟩
  cases hmem
  exact hfile

/-- A problem that is recorded in words that have the character only where they quote it. -/
theorem Diagnostic.Journal.adds_told (j : Journal) (level : Diagnostic.Level)
    {code message : String} {at? : Option Location} (hplace : ∀ l ∈ at?, c ∉ l.file.toList)
    (hquotes : c ∈ message.toList →
      ∀ e : Event, e.code = code → e.message = message → e.Quotes c w path) :
    j.Adds (Event.Told c w path) (j.report level code message at?) := by
  refine adds_add fun e he => ?_
  obtain rfl := Option.some.inj he
  have hcounted : (if level = .warning then Diagnostic.Level.warning else .error) = .error ∨
      (if level = .warning then Diagnostic.Level.warning else .error) = .warning := by
    split
    · exact .inr rfl
    · exact .inl rfl
  cases at? with
  | none => exact ⟨hcounted, nofun, fun hmem => hquotes hmem _ rfl rfl⟩
  | some l =>
    refine ⟨hcounted, fun file hfile => ?_, fun hmem => hquotes hmem _ rfl rfl⟩
    cases hfile
    exact hplace l rfl

/-- A problem that is recorded in printed words. -/
theorem Diagnostic.Journal.adds_printed (j : Journal) (level : Diagnostic.Level) (code : String)
    {message : String} {at? : Option Location} (hc : Text.isPrinted c = false)
    (hplace : ∀ l ∈ at?, c ∉ l.file.toList) (hmessage : Printed message) :
    j.Adds (Event.Told c w path) (j.report level code message at?) :=
  j.adds_told level hplace fun hmem => absurd hmem (hmessage.not_mem hc)

/-! ## Where names come from -/

/-- The names in a tree lack a character. -/
def FileTree.Lacks (t : FileTree) (c : Char) : Prop := ∀ name, t.HasName name → c ∉ name.toList

/-- What can be read is led to by a path that lacks it too. -/
theorem FileTree.Lacks.not_mem_of_read {t : FileTree} (h : t.Lacks c)
    (hc : Text.isPrinted c = false) {bytes : List UInt8} {failure? : Option String}
    (hread : t.read path = .ok (bytes, failure?)) : c ∉ path.toList := by
  intro hmem
  have hne {c' : Char} (hc' : Text.isPrinted c' = true) : c ≠ c' := by
    rintro rfl
    rw [hc] at hc'
    cases hc'
  obtain ⟨name, hname, hmem⟩ := FileTree.mem_name_of_read hread hmem (hne rfl) (hne rfl)
  exact h name hname hmem

/-- A file does not fail, and a directory fails in printed words. -/
theorem Source.failsPrinted_of_read {t : FileTree} {bytes : List UInt8} {failure? : Option String}
    (h : t.read path = .ok (bytes, failure?)) : (ofBytes path bytes failure?).FailsPrinted := by
  intro message hmessage
  change message ∈ failure? at hmessage
  unfold FileTree.read at h
  split at h
  all_goals cases h
  · cases hmessage
  · cases hmessage
    decide

theorem PathError.printed_message (e : PathError) : Printed e.message := by cases e <;> decide

theorem OpenError.printed_nestingTooDeep (depth : Nat) :
    Printed (nestingTooDeep depth).message := by
  unfold message
  exact ((((by decide : Printed _).append (Text.printed_toString depth)).append (by decide)).append
    (Text.printed_toString maxDepth)).append (by decide)

/-- A message about a file that cannot be opened has the character only if its path has it. -/
theorem OpenError.mem_path {cause : PathError} (hc : Text.isPrinted c = false)
    (h : c ∈ (openFailed path cause.message).message.toList) : c ∈ path.toList := by
  unfold message at h
  rwa [cause.printed_message.mem_append_right hc, Text.Printed.mem_append_right (by decide) hc,
    Text.Printed.mem_append (by decide) hc] at h

theorem SearchPath.mem_join {dir file : String} (h : c ∈ (join dir file).toList) :
    c = '/' ∨ c ∈ dir.toList ∨ c ∈ file.toList := by
  unfold join at h
  split at h
  · exact .inr (.inr h)
  · split at h
    · exact .inr (.inr h)
    · split at h
      all_goals simp only [String.toList_append, List.mem_append] at h
      · exact .inr h
      · rcases h with (h | h) | h
        · exact .inr (.inl h)
        · exact .inl (List.mem_singleton.1 h)
        · exact .inr (.inr h)

/-- A message about an import that is not found has the character only if the name has it. -/
theorem ImportError.mem_name {name : String} (hc : Text.isPrinted c = false)
    (hdirs : ∀ dir ∈ w.directories, c ∉ dir.toList)
    (h : c ∈ (notFound name (w.tried name)).message.toList) : c ∈ name.toList := by
  have hfile (h : c ∈ (SearchPath.fileName name).1.toList) : c ∈ name.toList := by
    unfold SearchPath.fileName at h
    split at h
    · exact h
    · exact (Text.Printed.mem_append_right (by decide) hc).1 h
  have htried (path : String) (hpath : path ∈ w.tried name) (h : c ∈ path.toList) :
      c ∈ name.toList := by
    obtain ⟨dir, hdir, rfl⟩ := List.mem_map.1 hpath
    rcases SearchPath.mem_join h with rfl | h | h
    · cases hc
    · exact absurd h (hdirs dir hdir)
    · exact hfile h
  unfold message at h
  rw [Text.Printed.mem_append_right (by decide) hc, String.toList_append, List.mem_append,
    Text.Printed.mem_append_right (by decide) hc, Text.Printed.mem_append (by decide) hc] at h
  rcases h with h | h
  · exact h
  · split at h
    · exact absurd h (Text.Printed.not_mem (by decide) hc)
    · rcases Text.mem_intercalate h with h | ⟨path, hpath, h⟩
      · exact absurd h (Text.Printed.not_mem (by decide) hc)
      · exact htried path hpath h

/-- A key is read by people in its own characters and a few printed ones. -/
theorem Decoration.printed_readable {key : String} (h : Printed key) : Printed (readable key) := by
  have hchars (open? : Bool) (cs : List Char) (h : ∀ c ∈ cs, Text.isPrinted c = true) :
      ∀ c ∈ readableChars open? cs, Text.isPrinted c = true := by
    induction cs generalizing open? with
    | nil => cases open? <;> exact List.all_eq_true.1 (by decide)
    | cons c cs ih =>
      obtain ⟨hc, hcs⟩ := List.forall_mem_cons.1 h
      rw [readableChars]
      split
      · refine List.forall_mem_append.2 ⟨?_, ih false hcs⟩
        cases open? <;> exact List.all_eq_true.1 (by decide)
      · split
        · refine List.forall_mem_cons.2 ⟨?_, ih true hcs⟩
          cases open? <;> decide
        · exact List.forall_mem_cons.2 ⟨hc, ih open? hcs⟩
  have hkey := Text.printed_iff.1 h
  refine Text.printed_ofList (hchars false _ ?_)
  split
  · rename_i c rest hcs
    rw [hcs] at hkey
    split
    · exact (List.forall_mem_cons.1 hkey).2
    · exact hkey
  · exact List.forall_mem_nil _

end ClassIndex
