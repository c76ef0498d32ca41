/-
# A read failure ends its source

A source whose bytes are followed by a read failure is read as one that ends there. Whatever reads
past the last byte first is told that the source has ended, and the failure is reported; from then
on the source has just ended. So one call of a scan records one diagnostic more, and this is the
only difference (`failing_as_ended`):

| source | is read | its diagnostics |
| --- | --- | --- |
| not read past its last byte | alike | the same |
| read past it in this call | alike | one more, `E029`, at the end of the bytes |
| read past it before | alike | the same |
-/

import ClassIndex.Proofs.Scanner.Located
import ClassIndex.Proofs.Scanner.Progress

namespace ClassIndex

open Diagnostic (Event)

/-- The source without the failure that follows its bytes. -/
def Source.unfailing (f : Source) : Source := { f with failure? := none }

/-- The report of a failure behind a text. -/
def failureBehind (name : String) (text : List UInt8) (message : String) : Event :=
  (Fault.readFailure message).event
    ⟨name, (Position.after text).line, (Position.after text).column⟩

/-- Of two rows of diagnostics the first has the report of a failure besides, if the failure was
still ahead before them and is not ahead after them. -/
inductive Tallies (e : Event) : (met met' : Bool) → List Event → List Event → Prop
  | ahead (events : List Event) : Tallies e false false events events
  | meets (before later : List Event) :
      Tallies e false true (before ++ e :: later) (before ++ later)
  | met (events : List Event) : Tallies e true true events events

namespace Tallies

variable {e : Event} {met met' met'' : Bool} {events events' later later' : List Event}

theorem refl (met : Bool) (events : List Event) : Tallies e met met events events := by
  cases met with
  | false => exact .ahead events
  | true => exact .met events

theorem append (h : Tallies e met met' events events') (h' : Tallies e met' met'' later later') :
    Tallies e met met'' (events ++ later) (events' ++ later') := by
  cases h with
  | ahead =>
    cases h' with
    | ahead => exact .ahead _
    | meets before later =>
      rw [← List.append_assoc, ← List.append_assoc]
      exact .meets _ _
  | meets =>
    cases h' with
    | met =>
      rw [List.append_assoc, List.append_assoc, List.cons_append]
      exact .meets _ _
  | met =>
    cases h' with
    | met => exact .met _

/-- A failure is met once. -/
theorem of_met (h : Tallies e true met events events') : met = true ∧ events = events' := by
  cases h with
  | met => exact ⟨rfl, rfl⟩

theorem of_ahead (h : Tallies e met false events events') : events = events' := by
  cases h with
  | ahead => rfl

theorem exists_report (h : Tallies e false true events events') :
    ∃ before later, events = before ++ e :: later ∧ events' = before ++ later := by
  cases h with
  | meets before later => exact ⟨before, later, rfl, rfl⟩

theorem meet (h : Tallies e met false events events') :
    Tallies e met true (events ++ [e]) events' := by
  cases h with
  | ahead => simpa using Tallies.meets (e := e) events []

end Tallies

/-! ## One source -/

namespace Source

/-- A source reads alike with a failure ahead and without, until it is read past its last byte. -/
theorem read_unfailing {f : Source} {message : String} (h : f.failure? = some message) :
    (f.unfailing.read = (f.read.1, f.read.2.unfailing) ∧ f.read.2.ended = f.ended) ∨
      f.rest = [] ∧ f.ended = false ∧ f.read = (.failed message, { f with ended := true }) ∧
        f.unfailing.read = (.ended, { f.unfailing with ended := true }) := by
  obtain ⟨name, unread, failure?, returned, position, lastColumn, ended⟩ := f
  obtain rfl : failure? = some message := h
  cases returned with
  | cons b returned => exact .inl ⟨rfl, rfl⟩
  | nil =>
    cases ended with
    | true => exact .inl ⟨rfl, rfl⟩
    | false =>
      cases unread with
      | cons b unread => exact .inl ⟨rfl, rfl⟩
      | nil => exact .inr ⟨rfl, rfl, rfl, rfl⟩

/-- Where no byte is read, the source has ended. -/
theorem ended_read {f : Source} (h : ∀ b, f.read.1 ≠ .byte b) : f.read.2.ended = true := by
  obtain ⟨name, unread, failure?, returned, position, lastColumn, ended⟩ := f
  cases returned with
  | cons b returned => exact absurd rfl (h b)
  | nil =>
    cases ended with
    | true => rfl
    | false =>
      cases unread with
      | cons b unread => exact absurd rfl (h b)
      | nil => cases failure? <;> rfl

end Source

namespace Cursor

/-- Two cursors are in the middle of the same token of a text, behind which only the source of the
first is to fail. -/
structure Fails (name : String) (text : List UInt8) (message : String) (met : Bool)
    (c d : Cursor) : Prop where
  located : c.Located name text
  failure : c.source.failure? = some message
  eq : d = { c with source := c.source.unfailing, faults := d.faults }
  tallies : Tallies (failureBehind name text message) met c.source.ended c.faults d.faults

theorem ended_of_next_none {c d : Cursor} (h : c.next = (none, d)) : d.source.ended = true := by
  have hsource := source_next c
  rw [h] at hsource
  rw [hsource]
  refine Source.ended_read fun b hb => ?_
  rw [next, show c.source.read = (.byte b, c.source.read.2) from Prod.ext hb rfl] at h
  cases h

/-- Where a source holds no further token, it has ended. -/
theorem ended_of_token_none {c d : Cursor} (h : c.token = (none, d)) : d.source.ended = true := by
  fun_induction token c with
  | case1 => cases h
  | case2 c b d _ e _ ih => exact ih h
  | case3 c d hd =>
    cases h
    exact ended_of_next_none hd

namespace Fails

variable {name message : String} {text : List UInt8} {met : Bool} {c d : Cursor}

theorem report (h : Fails name text message met c d) (f : Fault) :
    Fails name text message met (c.report f) (d.report f) := by
  obtain ⟨hlocated, hfailure, heq, htallies⟩ := h
  rw [heq]
  exact ⟨hlocated.report f, hfailure, rfl, htallies.append (.refl _ _)⟩

theorem next (h : Fails name text message met c d) :
    c.next.1 = d.next.1 ∧ Fails name text message met c.next.2 d.next.2 := by
  obtain ⟨r, hstands⟩ := h.located.stands
  have hlocated := h.located.next
  have hfailure := c.source.failure_read.trans h.failure
  rw [h.eq]
  rcases Source.read_unfailing h.failure with ⟨hread, hended⟩ | ⟨hrest, hended, hread, hread'⟩
  · -- both read the same
    have htallies := h.tallies
    rw [← hended] at htallies
    rcases hc : c.source.read with ⟨reading, f⟩
    rw [hc] at hread htallies hfailure
    simp only [Cursor.next, hc] at hlocated
    simp only [Cursor.next, hc, hread]
    cases reading with
    | byte b => exact ⟨rfl, hlocated, hfailure, rfl, htallies⟩
    | ended => exact ⟨rfl, hlocated, hfailure, rfl, htallies⟩
    | failed m => exact ⟨rfl, hlocated, hfailure, rfl, htallies.append (.refl _ _)⟩
  · -- one meets the failure where the other just ends
    have hposition : c.source.position = .after text := by
      obtain rfl : r = [] := hstands.left.symm.trans hrest
      exact hstands.position_eq (List.append_nil text).symm
    have hevent : (Fault.readFailure message).event { c.source with ended := true }.location =
        failureBehind name text message := by
      rw [Source.location, hposition, h.located.named]
      rfl
    have htallies := h.tallies
    rw [hended] at htallies
    rw [hread] at hfailure
    simp only [Cursor.next, hread] at hlocated
    simp only [Cursor.next, hread, hread']
    refine ⟨trivial, hlocated, hfailure, rfl, ?_⟩
    rw [Cursor.report, hevent]
    exact htallies.meet

/-- To give back what was read, where the first cursor then stands in its text. -/
theorem giveBack (h : Fails name text message met c d) {x : Option UInt8}
    (hlocated : (c.giveBack x).Located name text) :
    Fails name text message met (c.giveBack x) (d.giveBack x) := by
  cases x with
  | none => exact h
  | some b => exact ⟨hlocated, h.failure, by rw [h.eq]; rfl, h.tallies⟩

/-- **Every reader reads on after a failure as after the end,** and reports the failure once. -/
theorem lockstep (name : String) (text : List UInt8) (message : String) (met : Bool) :
    Lockstep (Fails name text message met) where
  next := next
  giveBack h := by
    obtain ⟨hbyte, hnext⟩ := h.next
    rw [← hbyte]
    exact hnext.giveBack ((Located.lockstep name text).giveBack ⟨rfl, h.located⟩).2
  giveBackTwo h hslash := by
    obtain ⟨hbyte, hnext⟩ := h.next
    obtain ⟨hbyte', hnext'⟩ := hnext.next
    have hlocated := (Located.lockstep name text).giveBack ⟨rfl, hnext.located⟩
    have hlocated' := (Located.lockstep name text).giveBackTwo ⟨rfl, h.located⟩ hslash
    rw [← hbyte, ← hbyte']
    exact (hnext'.giveBack hlocated.2).giveBack hlocated'.2
  report f _ h := h.report f
  lexeme h := by rw [h.eq]
  keep b h := by
    have hkeep := (Located.lockstep name text).keep b ⟨rfl, h.located⟩
    exact ⟨hkeep.2, h.failure, by rw [h.eq]; rfl, h.tallies⟩
  keepAll bs h := by
    have hkeep := (Located.lockstep name text).keepAll bs ⟨rfl, h.located⟩
    exact ⟨hkeep.2, h.failure, by rw [h.eq]; rfl, h.tallies⟩
  forget h := by
    have hforget := (Located.lockstep name text).forget ⟨rfl, h.located⟩
    exact ⟨hforget.2, h.failure, by rw [h.eq]; rfl, h.tallies⟩
  mark h := by
    have hmark := (Located.lockstep name text).mark ⟨rfl, h.located⟩
    exact ⟨hmark.2, h.failure, by rw [h.eq]; rfl, h.tallies⟩
  warn b h := by
    have hwarns : ∀ {c d : Cursor}, Fails name text message met c d → d.warns = c.warns :=
      fun h => by rw [h.eq]
    unfold warnOf
    rw [hwarns h]
    split
    · exact h.report _
    · exact h

end Fails

end Cursor

/-! ## The open sources -/

/-- Two calls show the same token. -/
structure Observation.SameToken (o o' : Observation) : Prop where
  kind : o.kind = o'.kind
  lexeme : o.lexeme = o'.lexeme
  location : o.location = o'.location

namespace Scanner

open Cursor (Fails)

variable {s t : Scanner} {sources sources' inner outer : List Source} {f : Source}
  {name message : String} {text : List UInt8} {w met : Bool}

/-- Two stacks of sources are the same, but that a source of a text is to fail in the first only.
It has met its failure if it has ended, or if it is no longer open. -/
inductive Differs (name : String) (text : List UInt8) (message : String) :
    Bool → List Source → List Source → Prop
  | within (inner outer : List Source) {f : Source} : f.name = name → f.Stands text f.rest →
      f.failure? = some message →
      Differs name text message f.ended (inner ++ f :: outer) (inner ++ f.unfailing :: outer)
  | gone (sources : List Source) : Differs name text message true sources sources

/-- Two calls over such stacks show the same token, and leave such stacks. -/
structure Differs.Calls (name : String) (text : List UInt8) (message : String) (met met' : Bool)
    (o o' : Observation × List Source) : Prop where
  left : Differs name text message met' o.2 o'.2
  token : o.1.SameToken o'.1
  tallies : Tallies (failureBehind name text message) met met' o.1.diagnostics o'.1.diagnostics

/-- A call that reads the source that is to fail. -/
theorem calls_source (w : Bool) (outer : List Source) (hname : f.name = name)
    (hstands : f.Stands text f.rest) (hfailure : f.failure? = some message) :
    ∃ met, Differs.Calls name text message f.ended met (outcome w (f :: outer))
      (outcome w (f.unfailing :: outer)) := by
  have hfresh : Fails name text message f.ended (freshCursor w f) (freshCursor w f.unfailing) :=
    ⟨located_freshCursor w hname hstands, hfailure, rfl, .refl _ []⟩
  rcases hc : (freshCursor w f).token with ⟨_ | kind, c⟩
  · obtain ⟨d, hd, hcd⟩ := ((Fails.lockstep ..).token hfresh).exists_eq hc
    have htallies := hcd.tallies
    rw [Cursor.ended_of_token_none hc] at htallies
    refine ⟨true, ?_⟩
    cases outer with
    | nil =>
      simp only [outcome, hc, hd]
      exact ⟨.gone _, ⟨rfl, by rw [hcd.eq], by rw [hcd.eq]⟩, htallies⟩
    | cons g outer =>
      rw [outcome_cons_of_none hc (List.cons_ne_nil _ _),
        outcome_cons_of_none hd (List.cons_ne_nil _ _)]
      exact ⟨.gone _, ⟨rfl, rfl, rfl⟩, htallies.append (.refl _ _)⟩
  · obtain ⟨d, hd, hcd⟩ := ((Fails.lockstep ..).token hfresh).exists_eq hc
    have hstands' := (stands_token hstands hc).2
    have hsource : d.source = c.source.unfailing := by rw [hcd.eq]
    refine ⟨c.source.ended, ?_⟩
    simp only [outcome, hc, hd, hsource]
    refine ⟨.within [] outer hcd.located.named hstands' hcd.failure, ⟨rfl, ?_, ?_⟩, hcd.tallies⟩
    · rw [hcd.eq]
    · rw [hcd.eq]
      rfl

/-- **One call:** the failure is met in it, or before it, or is still ahead after it. -/
theorem Differs.calls (w : Bool) (h : Differs name text message met sources sources') :
    ∃ met', Differs.Calls name text message met met' (outcome w sources) (outcome w sources') := by
  cases h with
  | gone => exact ⟨true, .gone _, ⟨rfl, rfl, rfl⟩, .met _⟩
  | @within inner outer f hname hstands hfailure =>
    induction inner with
    | nil => exact calls_source w outer hname hstands hfailure
    | cons g inner ih =>
      rcases hc : (freshCursor w g).token with ⟨_ | kind, c⟩
      · obtain ⟨met', hcalls⟩ := ih
        rw [List.cons_append, List.cons_append, outcome_cons_of_none hc (by simp),
          outcome_cons_of_none hc (by simp)]
        refine ⟨met', hcalls.left, ?_, (Tallies.refl _ _).append hcalls.tallies⟩
        exact ⟨hcalls.token.kind, hcalls.token.lexeme, hcalls.token.location⟩
      · simp only [List.cons_append, outcome, hc]
        exact ⟨f.ended, .within (c.source :: inner) outer hname hstands hfailure, ⟨rfl, rfl, rfl⟩,
          .refl _ _⟩

/-! ## A whole scan -/

/-- The calls of a scan show the same tokens. -/
theorem Differs.calls_stream (h : Differs name text message met s.sources t.sources)
    (hw : s.preferences.warnUnrecognized = t.preferences.warnUnrecognized) :
    ∃ met', Differs name text message met' s.next.2.sources t.next.2.sources ∧
      (s.stream 0).SameToken (t.stream 0) ∧
      Tallies (failureBehind name text message) met met' (s.stream 0).diagnostics
        (t.stream 0).diagnostics := by
  obtain ⟨met', hleft, htoken, htallies⟩ := h.calls t.preferences.warnUnrecognized
  rw [sources_next, sources_next, stream_zero, stream_zero, observe_eq, observe_eq, hw]
  exact ⟨met', hleft, htoken, htallies⟩

theorem Differs.stream (h : Differs name text message met s.sources t.sources)
    (hw : s.preferences.warnUnrecognized = t.preferences.warnUnrecognized) (k : Nat) :
    (s.stream k).SameToken (t.stream k) := by
  induction k generalizing s t met with
  | zero => exact (h.calls_stream hw).choose_spec.2.1
  | succ k ih =>
    obtain ⟨met', hleft, -, -⟩ := h.calls_stream hw
    exact ih hleft (by simpa using hw)

theorem Differs.metrics (h : Differs name text message met s.sources t.sources)
    (hw : s.preferences.warnUnrecognized = t.preferences.warnUnrecognized)
    (hmetrics : s.metrics = t.metrics) (k : Nat) : (s.after k).metrics = (t.after k).metrics := by
  induction k generalizing s t met with
  | zero => exact hmetrics
  | succ k ih =>
    obtain ⟨met', hleft, htoken, -⟩ := h.calls_stream hw
    refine ih hleft (by simpa using hw) ?_
    rw [metrics_next, metrics_next, hmetrics]
    exact congrArg t.metrics.countToken htoken.kind

/-- After the failure has been met, nothing is different. -/
theorem Differs.diagnostics (h : Differs name text message true s.sources t.sources)
    (hw : s.preferences.warnUnrecognized = t.preferences.warnUnrecognized) (k : Nat) :
    (s.stream k).diagnostics = (t.stream k).diagnostics := by
  induction k generalizing s t with
  | zero =>
    obtain ⟨met', -, -, htallies⟩ := h.calls_stream hw
    exact htallies.of_met.2
  | succ k ih =>
    obtain ⟨met', hleft, -, htallies⟩ := h.calls_stream hw
    rw [htallies.of_met.1] at hleft
    exact ih hleft (by simpa using hw)

/-- While the failure is ahead, its source is open. -/
theorem Differs.ne_nil (h : Differs name text message false sources sources') : sources ≠ [] := by
  generalize hmet : false = met at h
  cases h with
  | within => simp
  | gone => cases hmet

/-- One call meets the failure, at the latest the one that leaves no source open. -/
theorem Differs.exists_meeting (h : Differs name text message false s.sources t.sources)
    (hw : s.preferences.warnUnrecognized = t.preferences.warnUnrecognized) {n : Nat}
    (hend : (s.after n).next.2.sources = []) :
    ∃ m ≤ n, (∀ k ≠ m, (s.stream k).diagnostics = (t.stream k).diagnostics) ∧
      ∃ before later,
        (s.stream m).diagnostics = before ++ failureBehind name text message :: later ∧
          (t.stream m).diagnostics = before ++ later := by
  induction n generalizing s t with
  | zero =>
    obtain ⟨_ | _, hleft, -, htallies⟩ := h.calls_stream hw
    · exact absurd hend hleft.ne_nil
    · refine ⟨0, Nat.le_refl 0, ?_, htallies.exists_report⟩
      rintro (_ | k) hk
      · exact absurd rfl hk
      · exact hleft.diagnostics (by simpa using hw) k
  | succ n ih =>
    obtain ⟨_ | _, hleft, -, htallies⟩ := h.calls_stream hw
    · obtain ⟨m, hm, hsame, hmeet⟩ := ih hleft (by simpa using hw) hend
      refine ⟨m + 1, Nat.succ_le_succ hm, ?_, hmeet⟩
      rintro (_ | k) hk
      · exact htallies.of_ahead
      · exact hsame k fun hkm => hk (congrArg Nat.succ hkm)
    · refine ⟨0, Nat.zero_le _, ?_, htallies.exists_report⟩
      rintro (_ | k) hk
      · exact absurd rfl hk
      · exact hleft.diagnostics (by simpa using hw) k

/-- **A read failure acts as the end of its source.** In a scan over any stack of sources, in which
one is to fail behind its text, every call shows the token that it shows where that source ends
there, and has counted the same. The diagnostics of all calls but one are the same, and that one
records the failure besides, at the end of the text. -/
theorem failing_as_ended (hsources : s.sources = inner ++ f :: outer)
    (hstands : f.Stands text f.rest) (hfailure : f.failure? = some message)
    (hahead : f.ended = false) :
    let t := { s with sources := inner ++ { f with failure? := none } :: outer }
    let e := (Fault.readFailure message).event
      ⟨f.name, (Position.after text).line, (Position.after text).column⟩
    ∃ n, (∀ k < n, (s.stream k).kind ≠ .endOfInput) ∧ (s.stream n).kind = .endOfInput ∧
      (∀ k, (s.stream k).SameToken (t.stream k) ∧ (s.after k).metrics = (t.after k).metrics) ∧
      ∃ m ≤ n, (∀ k ≠ m, (s.stream k).diagnostics = (t.stream k).diagnostics) ∧
        ∃ before later, (s.stream m).diagnostics = before ++ e :: later ∧
          (t.stream m).diagnostics = before ++ later := by
  intro t e
  have hdiffers : Differs f.name text message false s.sources t.sources := by
    rw [hsources, ← hahead]
    exact .within inner outer rfl hstands hfailure
  obtain ⟨n, -, htokens, hend⟩ := s.exists_end
  have hclosed : (s.after n).next.2.sources = [] :=
    ((next_cases _).resolve_right fun h => h.1 hend).2.2
  exact ⟨n, htokens, hend, fun k => ⟨hdiffers.stream rfl k, hdiffers.metrics rfl rfl k⟩,
    hdiffers.exists_meeting rfl hclosed⟩

/-- A string that is open where the source fails. -/
theorem failing_as_ended_string :
    let f := Source.ofBytes "a.g" [0x22, 0x78] (some "stale handle")
    let s := ((new default .empty).push f).2
    let t := { s with sources := [] ++ { f with failure? := none } :: [] }
    s.sources = [] ++ f :: [] ∧ f.Stands [0x22, 0x78] f.rest ∧
      f.failure? = some "stale handle" ∧ f.ended = false ∧
      ∃ m, ∃ before later, (s.stream m).diagnostics =
          before ++ (Fault.readFailure "stale handle").event ⟨"a.g", 1, 3⟩ :: later ∧
        (t.stream m).diagnostics = before ++ later := by
  intro f s t
  have hsources : s.sources = [] ++ f :: [] := sources_push_new default .empty f
  have hstands := Source.stands_ofBytes "a.g" [0x22, 0x78] (some "stale handle")
  obtain ⟨n, -, -, -, m, -, -, hmeet⟩ := failing_as_ended hsources hstands rfl rfl
  exact ⟨hsources, hstands, rfl, rfl, m, hmeet⟩

end Scanner

end ClassIndex
