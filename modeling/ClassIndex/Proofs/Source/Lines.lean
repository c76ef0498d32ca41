/-
# Lines of a text

A text has one line more than it has line feeds. A line and a column of a text are the place of a
byte, or the place just behind the last byte of a line. The position of a source that stands in a
text is such a place (`Source.Stands.pointsInto`), so what is located there points into the text.
-/

import ClassIndex.Diagnostic.Event
import ClassIndex.Proofs.Source.Account

namespace ClassIndex

/-- A line and a column of a text, both counted from one. -/
structure HasPlace (text : List UInt8) (line column : Nat) : Prop where
  one_le_line : 1 ≤ line
  line_le : line ≤ 1 + text.count 0x0a
  one_le_column : 1 ≤ column
  column_le : column ≤ 1 + ((text.splitOn 0x0a)[line - 1]?.getD []).length

theorem length_splitOn (text : List UInt8) (b : UInt8) :
    (text.splitOn b).length = text.count b + 1 := by
  induction text with
  | nil => rfl
  | cons c text ih =>
    rw [List.splitOn_cons_eq_if_modifyHead]
    by_cases hc : c = b
    · simp [hc, ih]
    · simp [hc, ih]

/-- The first line is what stands before the first line feed. -/
theorem splitOn_head (text : List UInt8) (b : UInt8) :
    (text.splitOn b)[0]? = some (text.takeWhile (· != b)) := by
  induction text with
  | nil => rfl
  | cons c text ih =>
    rw [List.splitOn_cons_eq_if_modifyHead, List.takeWhile_cons]
    by_cases hc : c = b
    · simp [hc]
    · simp [hc, ih]

/-- The line in which a text goes on behind its first bytes: it begins with those behind their last
line feed. -/
theorem splitOn_count (w r : List UInt8) : ((w ++ r).splitOn 0x0a)[w.count 0x0a]?
    = some (w.rtakeWhile (· != 0x0a) ++ r.takeWhile (· != 0x0a)) := by
  induction w using List.reverseRecOn generalizing r with
  | nil => exact splitOn_head r 0x0a
  | append_singleton w b ih =>
    rw [List.append_assoc, List.singleton_append]
    by_cases hb : b = 0x0a
    · subst hb
      have hlast : (w ++ [0x0a]).count 0x0a = (w.splitOn 0x0a).length := by
        rw [length_splitOn]
        simp
      rw [List.splitOn_append_cons_self, hlast, List.getElem?_append_right (Nat.le_refl _),
        Nat.sub_self, splitOn_head, List.rtakeWhile_concat_neg _ _ _ (by decide)]
      rfl
    · have hcount : (w ++ [b]).count 0x0a = w.count 0x0a := by simp [hb]
      rw [hcount, ih, List.rtakeWhile_concat_pos _ _ _ (by simpa using hb),
        List.takeWhile_cons_of_pos (by simpa using hb), List.append_assoc]
      rfl

/-- **Behind the first bytes of a text is a place of it.** -/
theorem hasPlace_after {text w : List UInt8} (h : w <+: text) :
    HasPlace text (Position.after w).line (Position.after w).column := by
  obtain ⟨r, rfl⟩ := h
  refine ⟨Position.one_le_line_after w, ?_, Position.one_le_column_after w, ?_⟩
  all_goals rw [Position.after_eq]
  · rw [List.count_append]
    exact Nat.add_le_add_left (Nat.le_add_right _ _) 1
  · rw [Nat.add_sub_cancel_left, splitOn_count, Option.getD_some, List.length_append]
    exact Nat.add_le_add_left (Nat.le_add_right _ _) 1

/-- A location is a place in the text of a source. -/
def Location.PointsInto (l : Location) (name : String) (text : List UInt8) : Prop :=
  ∃ line column : Nat, l = ⟨name, line, column⟩ ∧ HasPlace text line column

/-- An event has a position, which is a place in the text of the source that its file names. -/
def Diagnostic.Event.PointsInto (e : Diagnostic.Event) (name : String) (text : List UInt8) : Prop :=
  ∃ line column, e.file? = some name ∧ e.span = some (.single ⟨0, line, column⟩) ∧
    HasPlace text line column

/-- The position after the first bytes of a text points into it. -/
theorem Location.pointsInto_after {text w : List UInt8} (h : w <+: text) (name : String) :
    (⟨name, (Position.after w).line, (Position.after w).column⟩ : Location).PointsInto name text :=
  ⟨_, _, rfl, hasPlace_after h⟩

/-- What is located at a place in a text points into that text. -/
theorem Location.PointsInto.located {l : Location} {name : String} {text : List UInt8}
    (h : l.PointsInto name text) {e : Diagnostic.Event} (he : e.context = []) :
    (e.located l).PointsInto name text := by
  obtain ⟨line, column, rfl, hplace⟩ := h
  refine ⟨line, column, ?_, ?_, hplace⟩
  · simp [Diagnostic.Event.file?, Diagnostic.Event.located, Diagnostic.Event.withFact, he,
      Diagnostic.setFact]
  · have hline : line ≠ 0 := Nat.ne_of_gt hplace.one_le_line
    have hcolumn : (max (column : Int) 1).toNat = column := by
      have := hplace.one_le_column
      omega
    simp [Diagnostic.Event.located, Location.span?, hline, hcolumn]

/-- What is located where there is no place has no position. -/
theorem span_located {l : Location} (hl : l.span? = none) {e : Diagnostic.Event}
    (he : e.span = none) : (e.located l).span = none := by
  simp [Diagnostic.Event.located, hl, he]

/-- The position of a source points into its text. -/
theorem Source.Stands.pointsInto {text r : List UInt8} {f : Source} (h : f.Stands text r) :
    f.location.PointsInto f.name text := by
  obtain ⟨w, hw, hp⟩ := h.passed
  rw [location, hp]
  exact Location.pointsInto_after (hw ▸ List.prefix_append w r) f.name

end ClassIndex
