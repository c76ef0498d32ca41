/-
# Faults have a place

A reader reports a fault at the position of the source that it reads, and that is a place in the
text of the source (`Cursor.Located.lockstep`). So what a call for a token records points into the
sources that were open (`Scanner.next_located`). So does the location of the token, if there is
one; behind the last source it has no file, but still the line and column at which that ended:

| token | its file | its line and column |
| --- | --- | --- |
| any but the last | its source | of its first byte |
| the end of the input, after a source | none | behind the last byte of that source |
| the end of the input, again | none | none |
-/

import ClassIndex.Proofs.Scanner.Account
import ClassIndex.Proofs.Source.Lines

namespace ClassIndex

open Diagnostic (Event)

namespace Diagnostic.Journal

variable {P Q : Event → Prop} {j j' j'' : Journal} {entry : Entry}

/-- A journal goes on to another with diagnostics of a kind only. -/
def Adds (P : Event → Prop) (j j' : Journal) : Prop :=
  ∃ events, j'.diagnostics = j.diagnostics ++ events ∧ ∀ e ∈ events, P e

theorem adds_of_eq (h : j'.diagnostics = j.diagnostics) : Adds P j j' :=
  ⟨[], by rw [h, List.append_nil], List.forall_mem_nil _⟩

theorem adds_add (h : ∀ e ∈ entry.diagnostic?, P e) : Adds P j (j.add entry) :=
  ⟨_, diagnostics_add j entry, fun e he => h e (Option.mem_toList.1 he)⟩

theorem Adds.trans (h : Adds P j j') (h' : Adds P j' j'') : Adds P j j'' := by
  obtain ⟨events, hj, hevents⟩ := h
  obtain ⟨events', hj', hevents'⟩ := h'
  exact ⟨events ++ events', by rw [hj', hj, List.append_assoc],
    List.forall_mem_append.2 ⟨hevents, hevents'⟩⟩

theorem Adds.mono (h : Adds P j j') (hPQ : ∀ e, P e → Q e) : Adds Q j j' := by
  obtain ⟨events, hj, hevents⟩ := h
  exact ⟨events, hj, fun e he => hPQ e (hevents e he)⟩

end Diagnostic.Journal

namespace Cursor

/-- A cursor in the text of a source, where everything reported points to. -/
structure Located (name : String) (text : List UInt8) (c : Cursor) : Prop where
  named : c.source.name = name
  stands : ∃ r, c.source.Stands text r
  start : ∃ w, w <+: text ∧ c.start = .after w
  faults : ∀ e ∈ c.faults, e.PointsInto name text

namespace Located

variable {name : String} {text : List UInt8} {c : Cursor}

theorem report (h : Located name text c) (f : Fault) : Located name text (c.report f) where
  named := h.named
  stands := h.stands
  start := h.start
  faults := by
    obtain ⟨r, hs⟩ := h.stands
    have hlocation := hs.pointsInto
    rw [h.named] at hlocation
    exact List.forall_mem_append.2 ⟨h.faults, List.forall_mem_singleton.2 (hlocation.located rfl)⟩

theorem next (h : Located name text c) : Located name text c.next.2 := by
  obtain ⟨r, hs⟩ := h.stands
  have hstands : c.source.read.2.Stands text r.tail := by
    rw [← source_next]
    exact (stands_next hs).2.1
  have hname := c.source.name_read.trans h.named
  rcases hread : c.source.read with ⟨_ | _ | m, t⟩
  all_goals
    rw [hread] at hstands hname
    simp only [Cursor.next, hread]
  · exact ⟨hname, ⟨_, hstands⟩, h.start, h.faults⟩
  · exact ⟨hname, ⟨_, hstands⟩, h.start, h.faults⟩
  · exact report (c := { c with source := t }) ⟨hname, ⟨_, hstands⟩, h.start, h.faults⟩ _

/-- To give back what was read changes nothing but where the source stands. -/
theorem giveBack (h : Located name text c) {x : Option UInt8}
    (hs : ∃ r, (c.giveBack x).source.Stands text r) : Located name text (c.giveBack x) where
  named := (name_giveBack c x).trans h.named
  stands := hs
  start := by rw [start_giveBack]; exact h.start
  faults := by rw [faults_giveBack]; exact h.faults

/-- Every reader leaves a cursor in the text, and reports nothing elsewhere. -/
theorem lockstep (name : String) (text : List UInt8) : Lockstep (Same (Located name text)) := by
  refine Same.lockstep next (fun h => ?_) (fun h hb => ?_) (fun f h => h.report f)
    (fun _ h => ⟨h.named, h.stands, h.start, h.faults⟩) (fun h => ?_)
  · obtain ⟨r, hs⟩ := h.stands
    exact h.next.giveBack ⟨r, (stands_next hs).2.2⟩
  · obtain ⟨r, hs⟩ := h.stands
    obtain ⟨-, hstands, -⟩ := stands_next hs
    exact (h.next.next.giveBack ⟨_, (stands_next hstands).2.2⟩).giveBack
      ⟨r, stands_giveBack_two hs hb⟩
  · -- a token starts where the source stands
    obtain ⟨r, hs⟩ := h.stands
    obtain ⟨w, hw, hp⟩ := hs.passed
    exact ⟨h.named, h.stands, ⟨w, hw ▸ List.prefix_append w r, hp⟩, h.faults⟩

end Located

/-- Where a source ends, the position of the end is kept. -/
theorem start_of_token_none {name : String} {text : List UInt8} {c d : Cursor}
    (h : Located name text c) (hc : c.token = (none, d)) : d.start = .after text := by
  have hR := Located.lockstep name text
  fun_induction token c with
  | case1 => cases hc
  | case2 c b d' hnext e hpiece ih =>
    have hd : Located name text d' := by
      have := (hR.next (hR.begin ⟨rfl, h⟩)).2.2
      rwa [hnext] at this
    have he := (hR.piece b ⟨rfl, hd⟩).2.2
    rw [hpiece] at he
    exact ih he hc
  | case3 c d' hnext =>
    cases hc
    have hbegin : Located name text c.begin := (hR.begin ⟨rfl, h⟩).2
    obtain ⟨r, hs⟩ := hbegin.stands
    have hread := (stands_next hs).1
    rw [hnext] at hread
    obtain rfl := List.head?_eq_none_iff.1 hread.symm
    have hstart : d.start = c.begin.start := by simpa only [hnext] using c.begin.start_next
    rw [hstart]
    exact hs.position_eq (List.append_nil text).symm

end Cursor

namespace Scanner

variable {texts : List (String × List UInt8)} {sources : List Source} {s : Scanner}

/-- Each text is that of an open source of its name. -/
theorem Sound.exists_source (h : Sound texts sources) {u : String × List UInt8} (hu : u ∈ texts) :
    ∃ f ∈ sources, f.name = u.1 := by
  induction h with
  | nil => cases hu
  | @cons v f texts outer hf _ ih =>
    rcases List.mem_cons.1 hu with rfl | hu
    · exact ⟨f, List.mem_cons_self, hf.1⟩
    · obtain ⟨g, hg, hname⟩ := ih hu
      exact ⟨g, List.mem_cons_of_mem f hg, hname⟩

/-- Each open source is of the name of a text. -/
theorem Sound.exists_text (h : Sound texts sources) {f : Source} (hf : f ∈ sources) :
    ∃ u ∈ texts, u.1 = f.name := by
  induction h with
  | nil => cases hf
  | @cons v g texts outer hg _ ih =>
    rcases List.mem_cons.1 hf with rfl | hf
    · exact ⟨v, List.mem_cons_self, hg.1.symm⟩
    · obtain ⟨u, hu, hname⟩ := ih hf
      exact ⟨u, List.mem_cons_of_mem v hu, hname⟩

theorem located_freshCursor {name : String} {text : List UInt8} {f : Source} (warns : Bool)
    (hname : f.name = name) (h : f.Stands text f.rest) :
    (freshCursor warns f).Located name text := by
  obtain ⟨w, hw, hp⟩ := h.passed
  exact ⟨hname, ⟨_, h⟩, ⟨w, hw ▸ List.prefix_append w _, hp⟩, List.forall_mem_nil _⟩

/-- The texts of the innermost sources are among those of as many sources and one more. -/
theorem drop_subset_cons (texts : List (String × List UInt8)) (u : String × List UInt8) (n : Nat) :
    texts.drop (texts.length - n) ⊆ (u :: texts).drop ((u :: texts).length - n) := by
  rw [List.length_cons]
  rcases Nat.lt_or_ge texts.length n with hn | hn
  · rw [Nat.sub_eq_zero_of_le hn]
    exact List.Subset.trans (List.drop_subset _ texts) (List.subset_cons_self u texts)
  · rw [Nat.succ_sub hn, List.drop_succ_cons]
    exact List.Subset.refl _

/-- What a call records points into the open sources, and its token is located in one that is left
open. The end of the input is located where the outermost source ended, but in no file. -/
theorem Sound.located (warns : Bool) (h : Sound texts sources) :
    (∀ e ∈ (Scanner.outcome warns sources).1.diagnostics, ∃ u ∈ texts, e.PointsInto u.1 u.2) ∧
      ((Scanner.outcome warns sources).1.kind ≠ .endOfInput →
        ∃ u ∈ texts.drop (texts.length - (Scanner.outcome warns sources).2.length),
          (Scanner.outcome warns sources).1.location.PointsInto u.1 u.2) ∧
      ((Scanner.outcome warns sources).1.kind = .endOfInput → ∀ u, texts.getLast? = some u →
        (Scanner.outcome warns sources).1.location
          = ⟨noSource, (Position.after u.2).line, (Position.after u.2).column⟩) := by
  induction h with
  | nil => exact ⟨List.forall_mem_nil _, fun hk => absurd rfl hk, fun _ _ => nofun⟩
  | @cons u f texts outer hf houter ih =>
    have hfresh := located_freshCursor warns hf.1 hf.2
    have hc := ((Cursor.Located.lockstep u.1 u.2).token ⟨rfl, hfresh⟩).2.2
    rcases htoken : (freshCursor warns f).token with ⟨_ | kind, c⟩
    · rw [htoken] at hc
      cases houter with
      | nil =>
        simp only [Scanner.outcome, htoken, Cursor.start_of_token_none hfresh htoken]
        refine ⟨fun e he => ⟨u, List.mem_singleton_self u, hc.faults e he⟩,
          fun hk => absurd rfl hk, fun _ v hv => ?_⟩
        cases hv
        rfl
      | @cons v g texts outer hg houter =>
        obtain ⟨hevents, htoken', hend⟩ := ih
        rw [outcome_cons_of_none htoken (List.cons_ne_nil _ _)]
        refine ⟨List.forall_mem_append.2 ⟨fun e he => ⟨u, List.mem_cons_self, hc.faults e he⟩,
          fun e he => ?_⟩, fun hk => ?_, hend⟩
        · obtain ⟨u', hu', he'⟩ := hevents e he
          exact ⟨u', List.mem_cons_of_mem _ hu', he'⟩
        · obtain ⟨u', hu', hl⟩ := htoken' hk
          exact ⟨u', drop_subset_cons _ u _ hu', hl⟩
    · rw [htoken] at hc
      have hkind : kind ≠ .endOfInput := fun hk =>
        Cursor.token_ne_endOfInput (freshCursor warns f) (by rw [htoken, hk])
      simp only [Scanner.outcome, htoken]
      refine ⟨fun e he => ⟨u, List.mem_cons_self, hc.faults e he⟩, fun _ => ?_,
        fun hk => absurd hk hkind⟩
      obtain ⟨w, hw, hstart⟩ := hc.start
      refine ⟨u, ?_, ?_⟩
      · rw [List.length_cons, List.length_cons, houter.length_eq, Nat.sub_self]
        exact List.mem_cons_self
      · rw [hc.named, hstart]
        exact Location.pointsInto_after hw u.1

/-- Where a scanner is, is a place in an open source, unless none is open. -/
theorem Sound.location (h : Sound texts s.sources) :
    (∃ u ∈ texts, s.location.PointsInto u.1 u.2) ∨ s.location.span? = none := by
  unfold Scanner.location
  generalize s.sources = sources at h
  cases h with
  | nil => exact .inr rfl
  | @cons u f texts outer hf houter =>
    have hlocation := hf.2.pointsInto
    rw [hf.1] at hlocation
    exact .inl ⟨u, List.mem_cons_self, hlocation⟩

/-- **A call records nothing but what points into the sources that are open,** and so does the
location of its token. At the end of the input there is none, unless a source has ended in the
call: then its line and column are left. -/
theorem Sound.next_located (h : Sound texts s.sources) :
    s.journal.Adds (fun e => ∃ u ∈ texts, e.PointsInto u.1 u.2) s.next.2.journal ∧
      (s.next.1 ≠ .endOfInput → ∃ u ∈ texts.drop (texts.length - s.next.2.depth),
        s.next.2.tokenLocation.PointsInto u.1 u.2) ∧
      (s.next.1 = .endOfInput → s.next.2.tokenLocation.span? = none ∨
        ∃ u, texts.getLast? = some u ∧ s.next.2.tokenLocation
          = ⟨noSource, (Position.after u.2).line, (Position.after u.2).column⟩) := by
  have hshows := next_shows s
  obtain ⟨hevents, htoken, hend⟩ := h.located s.preferences.warnUnrecognized
  rw [hshows.kind, hshows.location, depth, hshows.sources]
  refine ⟨⟨_, hshows.diagnostics, hevents⟩, htoken, fun hk => ?_⟩
  generalize s.sources = sources at h hend hk ⊢
  cases h with
  | nil => exact .inl rfl
  | cons hf houter =>
    exact .inr ⟨_, List.getLast?_cons, hend hk _ List.getLast?_cons⟩

end Scanner
end ClassIndex
