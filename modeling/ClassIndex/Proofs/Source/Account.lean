/-
# Every byte accounted for

At any time the text of a source falls into three parts: the bytes handed out and not taken back,
the bytes taken back, the bytes not yet read. The position counts the first part. To give a byte
back restores the position only because readers give back what they have just read:

| given back | line and column before it are found by |
| --- | --- |
| a byte that is no line feed | going back one column |
| a line feed | the column kept when it was read |
| a byte, then the slash before it | both of these, as a slash is no line feed |
-/

import ClassIndex.Source
import Mathlib.Data.List.DropRight

namespace ClassIndex

namespace Position

/-- The place after the first bytes of a text. -/
def after (bytes : List UInt8) : Position := bytes.foldl advance start

theorem after_concat (bytes : List UInt8) (b : UInt8) :
    after (bytes ++ [b]) = (after bytes).advance b := by
  simp [after]

/-- **The place counts bytes, line feeds, and bytes since the last line feed.** -/
theorem after_eq (bytes : List UInt8) :
    after bytes = ⟨bytes.length, 1 + bytes.count 0x0a,
      1 + (bytes.rtakeWhile (· != 0x0a)).length⟩ := by
  induction bytes using List.reverseRecOn with
  | nil => rfl
  | append_singleton bytes b ih =>
    rw [after_concat, ih, advance]
    by_cases hb : b = 0x0a
    · subst hb
      rw [if_pos rfl, List.rtakeWhile_concat_neg _ _ _ (by decide)]
      simp [Nat.add_assoc]
    · rw [if_neg hb, List.rtakeWhile_concat_pos _ _ _ (by simpa using hb)]
      simp [hb, Nat.add_assoc]

theorem one_le_line_after (bytes : List UInt8) : 1 ≤ (after bytes).line := by
  rw [after_eq]
  exact Nat.le_add_right 1 _

theorem one_le_column_after (bytes : List UInt8) : 1 ≤ (after bytes).column := by
  rw [after_eq]
  exact Nat.le_add_right 1 _

end Position

namespace Source

@[simp] theorem name_read (s : Source) : s.read.2.name = s.name := by
  unfold read
  repeat' split
  all_goals rfl

@[simp] theorem failure_read (s : Source) : s.read.2.failure? = s.failure? := by
  unfold read
  repeat' split
  all_goals rfl

/-- A source fails with its failure. -/
theorem failure_of_read {f g : Source} {message : String}
    (h : f.read = (.failed message, g)) : f.failure? = some message := by
  obtain ⟨name, unread, failure?, returned, position, lastColumn, ended⟩ := f
  cases returned with
  | cons b returned => cases h
  | nil =>
    cases ended with
    | true => cases h
    | false =>
      cases unread with
      | cons b unread => cases h
      | nil =>
        cases failure? with
        | none => cases h
        | some m =>
          cases h
          rfl

/-- Only a source that is to fail fails. -/
theorem read_ne_failed {s : Source} (h : s.failure? = none) (message : String) :
    s.read.1 ≠ .failed message := by
  intro hread
  have hfailure : s.failure? = some message := failure_of_read (Prod.ext hread rfl)
  rw [h] at hfailure
  cases hfailure

/-- A source of a text has these bytes left to hand out. -/
structure Stands (text r : List UInt8) (s : Source) : Prop where
  left : s.rest = r
  few : s.returned.length ≤ 2
  exhausted : s.ended = true → s.unread = []
  passed : ∃ w, text = w ++ r ∧ s.position = .after w

theorem stands_ofBytes (name : String) (bytes : List UInt8) (failure? : Option String) :
    (ofBytes name bytes failure?).Stands bytes bytes :=
  ⟨rfl, Nat.zero_le 2, by simp [ofBytes], [], rfl, rfl⟩

/-- The place of a source is told by what is left of its text. -/
theorem Stands.position_eq {text w r : List UInt8} {s : Source} (h : s.Stands text r)
    (hw : text = w ++ r) : s.position = .after w := by
  obtain ⟨w', hw', hp⟩ := h.passed
  rw [hp, List.append_cancel_right (hw'.symm.trans hw)]

/-- A source has handed out a row of bytes and is left as another one. -/
structure HandsOut (w : List UInt8) (f g : Source) : Prop where
  name : g.name = f.name
  rest : f.rest = w ++ g.rest
  position : g.position = w.foldl Position.advance f.position

/-- Between two places in a text stand the bytes that were handed out. -/
theorem Stands.handsOut {text w r : List UInt8} {f g : Source} (hf : f.Stands text (w ++ r))
    (hg : g.Stands text r) (hname : g.name = f.name) : f.HandsOut w g := by
  obtain ⟨u, hu, hp⟩ := hf.passed
  refine ⟨hname, by rw [hf.left, hg.left], ?_⟩
  rw [← List.append_assoc] at hu
  rw [hg.position_eq hu, hp, Position.after, List.foldl_append]
  rfl

/-- Going back over a byte, where the column that a line feed stood in is known. -/
theorem position_giveBack {s : Source} {p : Position} {b : UInt8} (hl : 1 ≤ p.line)
    (hc : 1 ≤ p.column) (hs : s.position = p.advance b)
    (hlast : b = 0x0a → s.lastColumn = p.column) : (s.giveBack b).position = p := by
  unfold giveBack
  simp only [hs, Position.advance]
  split
  · rename_i hb
    simp only [hlast hb]
    rw [Nat.add_sub_cancel, Nat.add_sub_cancel, Nat.max_eq_left hl]
  · rw [Nat.add_sub_cancel, Nat.add_sub_cancel, Nat.max_eq_left hc]

/-- Reading hands out the first byte that is left, and moves over it. -/
theorem read_of_rest {s : Source} {b : UInt8} {r : List UInt8} (h : s.rest = b :: r)
    (he : s.ended = true → s.unread = []) :
    ∃ returned unread, s.read = (.byte b, { s with returned, unread }.pass b) ∧
      returned ++ unread = r ∧ returned.length ≤ s.returned.length - 1 ∧
      (s.ended = true → unread = []) := by
  obtain ⟨name, unread, failure?, returned, position, lastColumn, ended⟩ := s
  cases returned with
  | nil =>
    obtain rfl : unread = b :: r := h
    have hne : ended ≠ true := fun hend => List.cons_ne_nil b r (he hend)
    refine ⟨[], r, ?_, rfl, Nat.le_refl _, fun hend => absurd hend hne⟩
    simp [read, hne]
  | cons b' returned =>
    obtain ⟨rfl, rfl⟩ := List.cons.inj h
    exact ⟨returned, unread, rfl, rfl, Nat.le_refl _, he⟩

section

variable {text r : List UInt8} {b : UInt8} {s t : Source}

/-- A byte is read, and may be given back. -/
theorem Stands.read_cons (h : s.Stands text (b :: r)) :
    ∃ t, s.read = (.byte b, t) ∧ t.Stands text r ∧ (t.giveBack b).Stands text (b :: r) ∧
      t.returned.length ≤ s.returned.length - 1 := by
  obtain ⟨w, hw, hp⟩ := h.passed
  obtain ⟨returned, unread, hread, hrest, hlen, hend⟩ := read_of_rest h.left h.exhausted
  have hfew := h.few
  refine ⟨_, hread, ⟨hrest, ?_, hend, w ++ [b], ?_, ?_⟩, ⟨?_, ?_, hend, w, hw, ?_⟩, hlen⟩
  · show returned.length ≤ 2
    omega
  · simpa using hw
  · rw [Position.after_concat, ← hp]
    rfl
  · exact congrArg (b :: ·) hrest
  · show returned.length + 1 ≤ 2
    omega
  · refine position_giveBack (Position.one_le_line_after w) (Position.one_le_column_after w)
      (congrArg (Position.advance · b) hp) fun hb => ?_
    show (if b = 0x0a then s.position.column else s.lastColumn) = _
    rw [if_pos hb, hp]

/-- Two bytes that were read are left no more. -/
theorem Stands.read_read {b' : UInt8} (h : s.Stands text (b :: b' :: r)) :
    s.read.2.read.2.Stands text r := by
  obtain ⟨t, hs, ht, -, -⟩ := h.read_cons
  obtain ⟨u, hu, hstands, -, -⟩ := ht.read_cons
  rw [hs]
  dsimp only
  rw [hu]
  exact hstands

/-- Two bytes are read, and may be given back if the first is a slash. -/
theorem Stands.read_read_cons {b' : UInt8} (h : s.Stands text (0x2f :: b' :: r)) :
    ∃ t u, s.read = (.byte 0x2f, t) ∧ t.read = (.byte b', u) ∧
      ((u.giveBack b').giveBack 0x2f).Stands text (0x2f :: b' :: r) := by
  obtain ⟨t, hs, ht, -, hlen⟩ := h.read_cons
  obtain ⟨u, hu, -, hback, hlen'⟩ := ht.read_cons
  obtain ⟨w, hw, hp⟩ := h.passed
  obtain ⟨w', hw', hp'⟩ := hback.passed
  have hfew := h.few
  refine ⟨t, u, hs, hu, congrArg (0x2f :: ·) hback.left, ?_, hback.exhausted, w, hw, ?_⟩
  · show u.returned.length + 2 ≤ 2
    omega
  · have hsame : w' ++ b' :: r = w ++ [0x2f] ++ b' :: r := by rw [← hw', hw]; simp
    obtain rfl := List.append_cancel_right hsame
    rw [Position.after_concat] at hp'
    exact position_giveBack (Position.one_le_line_after w) (Position.one_le_column_after w) hp'
      (by simp)

/-- Past the last byte nothing is read, and the source has ended. -/
theorem Stands.read_nil (h : s.Stands text []) :
    (∀ b, s.read.1 ≠ .byte b) ∧ s.read.2 = { s with ended := true } := by
  obtain ⟨name, unread, failure?, returned, position, lastColumn, ended⟩ := s
  obtain ⟨rfl, rfl⟩ := List.append_eq_nil_iff.1 h.left
  cases ended with
  | true => exact ⟨by simp [read], rfl⟩
  | false => cases failure? <;> exact ⟨by simp [read], rfl⟩

theorem Stands.atEnd (h : s.Stands text r) (hu : s.unread = []) :
    { s with ended := true }.Stands text r :=
  ⟨h.left, h.few, fun _ => hu, h.passed⟩

/-- Past the last byte this byte may still be given back. -/
theorem Stands.read_read_nil (h : s.Stands text [b]) :
    ∃ t, s.read = (.byte b, t) ∧ (t.read.2.giveBack b).Stands text [b] := by
  obtain ⟨t, hs, ht, hback, -⟩ := h.read_cons
  refine ⟨t, hs, ?_⟩
  rw [ht.read_nil.2]
  exact hback.atEnd (List.append_eq_nil_iff.1 ht.left).2

end

end Source
end ClassIndex
