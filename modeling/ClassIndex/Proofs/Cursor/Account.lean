/-
# Readers account for every byte

Whatever the reader of a token does, its source stands somewhere in its text with its position in
order (`Standing.reading`). Where it stands behind what is passed over is said exactly:

| passed over | what is left |
| --- | --- |
| a run of bytes of a class | from the first byte of no such class |
| a line | what follows its line feed |
| a block | what follows its end, nothing if it has none |
-/

import ClassIndex.Proofs.Cursor.Filler
import ClassIndex.Proofs.Cursor.Lockstep
import ClassIndex.Proofs.Source.Account

namespace ClassIndex
namespace Cursor

/-- Cursors with a property are equal. -/
def Same (P : Cursor → Prop) (c d : Cursor) : Prop := c = d ∧ P c

/-- A cursor is another one further on in its source, and it has met a fault since only if the
source is to fail. -/
structure Passes (c d : Cursor) : Prop where
  name : d.source.name = c.source.name
  warns : d.warns = c.warns
  failure : d.source.failure? = c.source.failure?
  faults : c.source.failure? = none → d.faults = c.faults

theorem Passes.refl (c : Cursor) : c.Passes c := ⟨rfl, rfl, rfl, fun _ => rfl⟩

theorem Passes.trans {c d e : Cursor} (h : c.Passes d) (k : d.Passes e) : c.Passes e where
  name := k.name.trans h.name
  warns := k.warns.trans h.warns
  failure := k.failure.trans h.failure
  faults := fun hf => (k.faults (h.failure.trans hf)).trans (h.faults hf)

theorem source_next (c : Cursor) : c.next.2.source = c.source.read.2 := by
  unfold next
  split <;> rename_i h <;> rw [h]
  rfl

/-- A property that holds after each step if it holds before is kept by every reader, as a relation
between equal cursors. -/
theorem Same.lockstep {P : Cursor → Prop} (hnext : ∀ {c}, P c → P c.next.2)
    (hback : ∀ {c}, P c → P (c.next.2.giveBack c.next.1))
    (htwo : ∀ {c}, P c → c.next.1 = some 0x2f →
      P ((c.next.2.next.2.giveBack c.next.2.next.1).giveBack c.next.1))
    (hreport : ∀ {c} (f : Fault), P c → P (c.report f))
    (hlexeme : ∀ {c} (l : Buffer), P c → P { c with lexeme := l })
    (hmark : ∀ {c}, P c → P c.mark) : Lockstep (Same P) where
  next := by
    rintro c _ ⟨rfl, h⟩
    exact ⟨rfl, rfl, hnext h⟩
  giveBack := by
    rintro c _ ⟨rfl, h⟩
    exact ⟨rfl, hback h⟩
  giveBackTwo := by
    rintro c _ ⟨rfl, h⟩ hb
    exact ⟨rfl, htwo h hb⟩
  lexeme := by
    rintro c _ ⟨rfl, -⟩
    rfl
  keep := by
    rintro c _ b ⟨rfl, h⟩
    exact ⟨rfl, hlexeme _ h⟩
  keepAll := by
    rintro c _ bs ⟨rfl, h⟩
    exact ⟨rfl, hlexeme _ h⟩
  forget := by
    rintro c _ ⟨rfl, h⟩
    exact ⟨rfl, hlexeme _ h⟩
  report := by
    rintro c _ f - ⟨rfl, h⟩
    exact ⟨rfl, hreport f h⟩
  warn := by
    rintro c _ b ⟨rfl, h⟩
    refine ⟨rfl, ?_⟩
    unfold warnOf
    split
    · exact hreport _ h
    · exact h
  mark := by
    rintro c _ ⟨rfl, h⟩
    exact ⟨rfl, hmark h⟩

/-- **What reading and giving back keep of a source, every token keeps.** -/
theorem source_token {P : Source → Prop} (hread : ∀ f, P f → P f.read.2)
    (hback : ∀ f b, P f → P (f.giveBack b)) {c : Cursor} (h : P c.source) :
    P c.token.2.source := by
  have hnext {c : Cursor} (hc : P c.source) : P c.next.2.source := by
    rw [source_next]
    exact hread _ hc
  have hgive {c : Cursor} (x : Option UInt8) (hc : P c.source) : P (c.giveBack x).source := by
    cases x with
    | none => exact hc
    | some b => exact hback _ b hc
  have hkept : Lockstep (Same fun c => P c.source) :=
    Same.lockstep hnext (fun hc => hgive _ (hnext hc))
      (fun hc _ => hgive _ (hgive _ (hnext (hnext hc)))) (fun _ hc => hc) (fun _ hc => hc) id
  exact (hkept.token ⟨rfl, h⟩).2.2

theorem passes_next (c : Cursor) : c.Passes c.next.2 := by
  rcases hread : c.source.read with ⟨_ | _ | m, t⟩
  all_goals
    have hname := c.source.name_read
    have hfailure := c.source.failure_read
    rw [hread] at hname hfailure
    simp only [next, hread]
  · exact ⟨hname, rfl, hfailure, fun _ => rfl⟩
  · exact ⟨hname, rfl, hfailure, fun _ => rfl⟩
  · exact ⟨hname, rfl, hfailure, fun hf => absurd (congrArg Prod.fst hread)
      (Source.read_ne_failed hf m)⟩

theorem lexeme_of_next {c d : Cursor} {x : Option UInt8} (hc : c.next = (x, d)) :
    d.lexeme = c.lexeme := by
  have := c.lexeme_next
  rwa [hc] at this

theorem passes_giveBack (c : Cursor) (x : Option UInt8) : c.Passes (c.giveBack x) := by
  cases x <;> exact ⟨rfl, rfl, rfl, fun _ => rfl⟩

@[simp] theorem name_next (c : Cursor) : c.next.2.source.name = c.source.name :=
  c.passes_next.name

@[simp] theorem faults_giveBack (c : Cursor) (x : Option UInt8) :
    (c.giveBack x).faults = c.faults := by
  cases x <;> rfl

@[simp] theorem name_giveBack (c : Cursor) (x : Option UInt8) :
    (c.giveBack x).source.name = c.source.name :=
  (c.passes_giveBack x).name

/-- What a further fault does not undo, no reader undoes. -/
theorem Same.faults (P : List Diagnostic.Event → Prop)
    (hP : ∀ {events} (f : Fault) (l : Location), P events → P (events ++ [f.event l])) :
    Lockstep (Same fun c => P c.faults) := by
  have hnext {c : Cursor} (h : P c.faults) : P c.next.2.faults := by
    unfold next
    split
    · exact h
    · exact h
    · exact hP _ _ h
  refine Same.lockstep hnext (fun h => ?_) (fun h _ => ?_) (fun f h => hP f _ h) (fun _ h => h)
    fun h => h
  · rw [faults_giveBack]
    exact hnext h
  · rw [faults_giveBack, faults_giveBack]
    exact hnext (hnext h)

theorem Passes.stepwise (c : Cursor) : Stepwise (Same c.Passes) where
  next := by
    rintro d _ ⟨rfl, hd⟩
    exact ⟨rfl, rfl, hd.trans d.passes_next⟩
  giveBack := by
    rintro d _ ⟨rfl, hd⟩
    exact ⟨rfl, hd.trans (d.passes_next.trans (passes_giveBack _ _))⟩

theorem passes_skipSpace (c : Cursor) : c.Passes c.skipSpace :=
  ((Passes.stepwise c).skipSpace ⟨rfl, .refl c⟩).2

theorem passes_skipLine (c : Cursor) : c.Passes c.skipLine :=
  ((Passes.stepwise c).skipLine ⟨rfl, .refl c⟩).2

section

variable {text r : List UInt8} {b : UInt8} {f : Source} {c : Cursor}

/-! ## Single bytes -/

/-- Reading a byte changes nothing but the source. -/
theorem next_at_cons (h : f.Stands text (b :: r)) :
    ∃ g, g.Stands text r ∧ (g.giveBack b).Stands text (b :: r) ∧ g.name = f.name ∧
      g.failure? = f.failure? ∧
      ∀ c : Cursor, { c with source := f }.next = (some b, { c with source := g }) := by
  obtain ⟨g, hread, hg, hback, -⟩ := h.read_cons
  have hname := f.name_read
  have hfailure := f.failure_read
  rw [hread] at hname hfailure
  exact ⟨g, hg, hback, hname, hfailure, fun c => by rw [next, hread]⟩

/-- What a source may have reported where it ends: nothing, or that it was not read to its end. -/
def EndNotices (f g : Source) (notices : List Diagnostic.Event) : Prop :=
  notices = [] ∨ ∃ message, f.failure? = some message ∧
    notices = [(Fault.readFailure message).event g.location]

/-- At the end of a source nothing changes but that the source has ended, perhaps with a notice. -/
theorem next_at_nil (h : f.Stands text []) :
    ∃ g notices, g.Stands text [] ∧ g.ended = true ∧ g.name = f.name ∧ EndNotices f g notices ∧
      ∀ c : Cursor, { c with source := f }.next
        = (none, { c with source := g, faults := c.faults ++ notices }) := by
  obtain ⟨hno, hend⟩ := h.read_nil
  have hended : f.read.2.ended = true := by rw [hend]
  have hstands : f.read.2.Stands text [] := by
    rw [hend]
    exact h.atEnd (List.append_eq_nil_iff.1 h.left).2
  have hname := f.name_read
  rcases hread : f.read with ⟨_ | _ | message, g⟩
  all_goals rw [hread] at hno hstands hended hname
  · exact absurd rfl (hno _)
  · refine ⟨g, [], hstands, hended, hname, .inl rfl, fun c => ?_⟩
    rw [next, hread, List.append_nil]
  · refine ⟨g, [(Fault.readFailure message).event g.location], hstands, hended, hname,
      .inr ⟨message, Source.failure_of_read hread, rfl⟩, fun c => ?_⟩
    rw [next, hread]
    rfl

theorem next_cons (h : c.source.Stands text (b :: r)) :
    ∃ d, c.next = (some b, d) ∧ d.source.Stands text r ∧
      (d.giveBack (some b)).source.Stands text (b :: r) := by
  obtain ⟨g, hs, hback, -, -, hg⟩ := next_at_cons h
  exact ⟨_, hg c, hs, hback⟩

theorem next_nil (h : c.source.Stands text []) :
    ∃ d, c.next = (none, d) ∧ d.source.Stands text [] := by
  obtain ⟨g, notices, hs, -, -, -, hg⟩ := next_at_nil h
  exact ⟨_, hg c, hs⟩

/-- Whatever is left, reading takes the first byte of it, which may be given back. -/
theorem stands_next (h : c.source.Stands text r) :
    c.next.1 = r.head? ∧ c.next.2.source.Stands text r.tail ∧
      (c.next.2.giveBack c.next.1).source.Stands text r := by
  cases r with
  | nil =>
    obtain ⟨d, hd, hs⟩ := next_nil h
    rw [hd]
    exact ⟨rfl, hs, hs⟩
  | cons b r =>
    obtain ⟨d, hd, hs, hback⟩ := next_cons h
    rw [hd]
    exact ⟨rfl, hs, hback⟩

/-- A slash and what follows it may both be given back. -/
theorem stands_giveBack_two (h : c.source.Stands text r) (hb : c.next.1 = some 0x2f) :
    ((c.next.2.next.2.giveBack c.next.2.next.1).giveBack c.next.1).source.Stands text r := by
  rw [(stands_next h).1] at hb
  obtain ⟨r, rfl⟩ := List.head?_eq_some_iff.1 hb
  cases r with
  | nil =>
    obtain ⟨t, hs, hback⟩ := h.read_read_nil
    have hend := (stands_next (stands_next h).2.1).1
    have hd : c.next = (some 0x2f, { c with source := t }) := by simp only [next, hs]
    rw [hd] at hend ⊢
    dsimp only at hend ⊢
    rw [hend]
    rw [show ([0x2f] : List UInt8).tail.head? = none from rfl, giveBack_none]
    show (Source.giveBack (Cursor.source _) 0x2f).Stands text [0x2f]
    rw [source_next]
    exact hback
  | cons b r =>
    obtain ⟨t, u, hs, ht, hback⟩ := h.read_read_cons
    have hd : c.next = (some 0x2f, { c with source := t }) := by simp only [next, hs]
    have he : { c with source := t }.next = (some b, { c with source := u }) := by
      simp only [next, ht]
    rw [hd]
    dsimp only
    rw [he]
    exact hback

/-! ## Blanks and comments -/

theorem stands_skipWhile (p : UInt8 → Bool) (h : c.source.Stands text r) :
    (c.skipWhile p).source.Stands text (r.dropWhile p) := by
  induction r generalizing c with
  | nil =>
    obtain ⟨d, hd, hs⟩ := next_nil h
    rw [skipWhile_eq, hd]
    exact hs
  | cons b r ih =>
    obtain ⟨d, hd, hs, hback⟩ := next_cons h
    rw [skipWhile_eq, hd, List.dropWhile_cons]
    by_cases hb : p b = true
    · simpa [hb] using ih hs
    · simpa [hb] using hback

/-- A run of bytes of a class is kept as a whole, and what follows it is left. -/
theorem keepWhile_of_stands (p : UInt8 → Bool) (h : c.source.Stands text r) :
    (c.keepWhile p).source.Stands text (r.dropWhile p) ∧
      (c.keepWhile p).lexeme.toList = c.lexeme.toList ++ r.takeWhile p ∧
      c.Passes (c.keepWhile p) := by
  induction r generalizing c with
  | nil =>
    obtain ⟨d, hd, hs⟩ := next_nil h
    rw [keepWhile_eq, hd, List.takeWhile_nil, List.append_nil]
    exact ⟨hs, congrArg Buffer.toList (lexeme_of_next hd), by simpa only [hd] using c.passes_next⟩
  | cons b r ih =>
    obtain ⟨d, hd, hs, hback⟩ := next_cons h
    have hp : c.Passes d := by simpa only [hd] using c.passes_next
    rw [keepWhile_eq, hd, List.dropWhile_cons, List.takeWhile_cons, ← lexeme_of_next hd]
    by_cases hb : p b = true
    · obtain ⟨hs', hl', hp'⟩ := ih (c := d.keep b) hs
      have hkeep : c.Passes (d.keep b) := hp.trans ⟨rfl, rfl, rfl, fun _ => rfl⟩
      simp only [hb, if_true]
      refine ⟨hs', ?_, hkeep.trans hp'⟩
      rw [hl', keep, Buffer.toList_push, List.append_assoc]
      rfl
    · simp only [hb]
      exact ⟨hback, (List.append_nil _).symm, hp.trans (passes_giveBack d (some b))⟩

theorem stands_skipLine (h : c.source.Stands text r) :
    c.skipLine.source.Stands text (afterLine r) := by
  induction r generalizing c with
  | nil =>
    obtain ⟨d, hd, hs⟩ := next_nil h
    rw [skipLine_eq, hd]
    exact hs
  | cons b r ih =>
    obtain ⟨d, hd, hs, -⟩ := next_cons h
    rw [skipLine_eq, hd]
    by_cases hb : b = 0x0a
    · simpa [afterLine, hb] using hs
    · simpa [afterLine, hb, List.dropWhile_cons] using ih hs

/-- **Nothing but the source changes up to the end of a block,** or of the source. -/
theorem skipBlock_reads (star : Bool) (h : f.Stands text r) :
    ∃ g, g.Stands text ((afterBlock star r).getD []) ∧ g.name = f.name ∧
      g.failure? = f.failure? ∧ ∀ c : Cursor, { c with source := f }.skipBlock star =
        if (afterBlock star r).isSome then (true, { c with source := g })
        else (false, { c with source := g }.next.2.report .unterminatedComment) := by
  induction r generalizing star f with
  | nil =>
    refine ⟨f, h, rfl, rfl, fun c => ?_⟩
    obtain ⟨d, hd, -⟩ := next_nil (c := { c with source := f }) h
    rw [skipBlock_eq, hd]
    rfl
  | cons b r ih =>
    obtain ⟨g, hs, -, hname, hfailure, hg⟩ := next_at_cons h
    have hstep (c : Cursor) : { c with source := f }.skipBlock star =
        if b = 0x2a then { c with source := g }.skipBlock true
        else if b = 0x2f && star then (true, { c with source := g })
        else { c with source := g }.skipBlock false := by
      rw [skipBlock_eq, hg]
    rw [afterBlock, ← hname, ← hfailure]
    by_cases hb : b = 0x2a
    · simp only [hstep, hb, if_true]
      exact ih true hs
    · by_cases hstar : (b = 0x2f && star) = true
      · simp only [hstep, hb, if_false, hstar, if_true]
        exact ⟨g, hs, rfl, rfl, fun c => rfl⟩
      · simp only [hstep, hb, if_false, hstar]
        exact ih false hs

/-- A block is passed over to its end, without a fault if it has one. -/
theorem skipBlock_of_stands (star : Bool) (h : c.source.Stands text r) :
    (c.skipBlock star).1 = (afterBlock star r).isSome ∧
      (c.skipBlock star).2.source.Stands text ((afterBlock star r).getD []) ∧
      ((afterBlock star r).isSome = true → c.Passes (c.skipBlock star).2) := by
  obtain ⟨g, hs, hname, hfailure, hskip⟩ := skipBlock_reads star h
  have hc : c.skipBlock star = _ := hskip c
  rw [hc]
  cases hafter : afterBlock star r with
  | none =>
    rw [hafter] at hs
    obtain ⟨d, hd, hend⟩ := next_nil (c := { c with source := g }) hs
    simp only [Option.isSome_none, hd]
    exact ⟨rfl, hend, nofun⟩
  | some r' =>
    rw [hafter] at hs
    exact ⟨rfl, hs, fun _ => ⟨hname, rfl, hfailure, fun _ => rfl⟩⟩

/-! ## Inside a token -/

/-- A token that started here is being read; of the text at most these bytes are left. -/
structure Standing (text r : List UInt8) (name : String) (start : Position) (c : Cursor) :
    Prop where
  name : c.source.name = name
  start : c.start = start
  stands : ∃ r', c.source.Stands text r' ∧ r' <:+ r

theorem Standing.reading (text r : List UInt8) (name : String) (start : Position) :
    Reading (Same (Standing text r name start)) where
  next := by
    rintro d _ ⟨rfl, hname, hstart, r', hs, hr⟩
    exact ⟨rfl, rfl, by simpa using hname, by simpa using hstart, _, (stands_next hs).2.1,
      (List.tail_suffix r').trans hr⟩
  giveBack := by
    rintro d _ ⟨rfl, hname, hstart, r', hs, hr⟩
    exact ⟨rfl, by simpa using hname, by simpa using hstart, r', (stands_next hs).2.2, hr⟩
  giveBackTwo := by
    rintro d _ ⟨rfl, hname, hstart, r', hs, hr⟩ hb
    exact ⟨rfl, by simpa using hname, by simpa using hstart, r', stands_giveBack_two hs hb, hr⟩
  lexeme := by
    rintro d _ ⟨rfl, -⟩
    rfl
  keep := by
    rintro d _ b ⟨rfl, hname, hstart, hs⟩
    exact ⟨rfl, hname, hstart, hs⟩
  keepAll := by
    rintro d _ bs ⟨rfl, hname, hstart, hs⟩
    exact ⟨rfl, hname, hstart, hs⟩
  forget := by
    rintro d _ ⟨rfl, hname, hstart, hs⟩
    exact ⟨rfl, hname, hstart, hs⟩
  report := by
    rintro d _ f - ⟨rfl, hname, hstart, hs⟩
    exact ⟨rfl, hname, hstart, hs⟩
  warn := by
    rintro d _ b ⟨rfl, h⟩
    refine ⟨rfl, ?_⟩
    unfold warnOf
    split
    · exact ⟨h.name, h.start, h.stands⟩
    · exact h

end

end Cursor
end ClassIndex
