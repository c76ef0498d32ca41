/-
# How deep sources nest

Calls to open a source and calls for a token may alternate in any way. The number of open sources is
that of the sources opened less that of the sources closed, and a source is refused just if it is
fifteen already or the file cannot be read.

| call | sources opened | sources closed |
| --- | --- | --- |
| to open a source | one, or none if it is refused | none |
| for a token | none | as many as end before the token |

A refused call leaves one diagnostic in the journal and everything else as it was, so the calls
after it show what they would have shown without it (`Agrees.run`).
-/

import ClassIndex.Proofs.Cursor.Account
import ClassIndex.Proofs.Scanner.Tokens

namespace ClassIndex
namespace Scanner

open Diagnostic (Event)

/-- A call on a scanner. -/
inductive Call where
  | push (f : Source)
  | openFile (t : FileTree) (path : String)
  | next

/-- What a call gives back. -/
inductive Answer where
  | opened (result : Except OpenError Unit)
  | token (shown : Observation)

/-- What a call gives back, and the scanner after it. -/
def answer (s : Scanner) : Call → Answer × Scanner
  | .push f => (.opened (s.push f).1, (s.push f).2)
  | .openFile t path => (.opened (s.openFile t path).1, (s.openFile t path).2)
  | .next => (.token s.observe, s.next.2)

/-- What the calls of a row give back, and the scanner after them. -/
def run (s : Scanner) : List Call → List Answer × Scanner
  | [] => ([], s)
  | call :: calls =>
    ((s.answer call).1 :: ((s.answer call).2.run calls).1, ((s.answer call).2.run calls).2)

/-- The answer tells of a source that was opened. -/
def Answer.isOpened : Answer → Bool
  | .opened (.ok ()) => true
  | _ => false

/-- The number of sources that the search for a token closes. -/
def closings (s : Scanner) : List Source → Nat
  | [] => 0
  | f :: outer =>
    match (s.cursor f).token with
    | (some _, _) => 0
    | (none, c) => ((s.settle c).close c.source outer).closings outer + 1

/-- The number of sources that a call closes. -/
def closedBy (s : Scanner) : Call → Nat
  | .push _ | .openFile .. => 0
  | .next => s.closings s.sources

/-- The number of sources that the calls of a row close. -/
def closed (s : Scanner) : List Call → Nat
  | [] => 0
  | call :: calls => s.closedBy call + (s.answer call).2.closed calls

/-- A call to open a source is refused for this cause. Where there is no room, whether the file can
be read is not asked. -/
inductive Refused (s : Scanner) : Call → OpenError → Prop
  | noRoom {f : Source} : maxDepth ≤ s.depth → Refused s (.push f) (.nestingTooDeep (s.depth + 1))
  | noRoomForFile {t : FileTree} {path : String} : maxDepth ≤ s.depth →
      Refused s (.openFile t path) (.nestingTooDeep (s.depth + 1))
  | unreadable {t : FileTree} {path : String} {e : PathError} : s.depth < maxDepth →
      t.read path = .error e → Refused s (.openFile t path) (.openFailed path e.message)

variable {s t : Scanner} {call : Call} {calls : List Call} {e : OpenError}

/-! ## The number of open sources -/

theorem length_advance (s : Scanner) (sources : List Source) :
    (s.advance sources).2.sources.length + s.closings sources = sources.length := by
  induction sources generalizing s with
  | nil => rfl
  | cons f outer ih =>
    rcases hc : (s.cursor f).token with ⟨_ | kind, c⟩
    · cases outer with
      | nil => simp only [advance, closings, hc, sources_close, List.length_nil, List.length_cons]
      | cons g outer =>
        have hrest := ih ((s.settle c).close c.source (g :: outer))
        simp only [advance, closings, hc, List.length_cons] at hrest ⊢
        omega
    · simp only [advance, closings, hc, List.length_cons, Nat.add_zero]

theorem depth_next (s : Scanner) : s.next.2.depth + s.closings s.sources = s.depth := by
  rw [depth, depth, ← length_advance s s.sources]
  exact congrArg (·.length + _) (sources_count ..)

theorem push_of_ge (h : maxDepth ≤ s.depth) (f : Source) :
    s.push f = s.refuse (.nestingTooDeep (s.depth + 1)) := if_pos h

theorem openFile_of_ge (h : maxDepth ≤ s.depth) (t : FileTree) (path : String) :
    s.openFile t path = s.refuse (.nestingTooDeep (s.depth + 1)) := if_pos h

theorem openFile_of_lt (h : s.depth < maxDepth) (t : FileTree) (path : String) :
    s.openFile t path = match t.read path with
      | .ok (bytes, failure?) => (.ok (), s.suspend (.ofBytes path bytes failure?))
      | .error e => s.refuse (.openFailed path e.message) := if_neg (Nat.not_le_of_lt h)

/-- The sources that a search for a token leaves are those around the closed ones, and of them only
the innermost is read on. -/
theorem sources_advance (s : Scanner) (sources : List Source) :
    (s.advance sources).2.sources.map (·.name) =
        (sources.drop (s.closings sources)).map (·.name) ∧
      (s.advance sources).2.sources.tail = (sources.drop (s.closings sources)).tail := by
  induction sources generalizing s with
  | nil => exact ⟨rfl, rfl⟩
  | cons f outer ih =>
    have hname : (s.cursor f).token.2.source.name = f.name :=
      Cursor.source_token (P := fun g => g.name = f.name) (fun g hg => g.name_read.trans hg)
        (fun _ _ hg => hg) rfl
    rcases hc : (s.cursor f).token with ⟨_ | kind, c⟩
    · cases outer with
      | nil =>
        simp only [advance, closings, hc, sources_close]
        exact ⟨rfl, rfl⟩
      | cons g outer =>
        simp only [advance, closings, hc]
        exact ih ((s.settle c).close c.source (g :: outer))
    · rw [hc] at hname
      dsimp only at hname
      simp only [advance, closings, hc, List.drop_zero, List.map_cons, hname]
      exact ⟨trivial, rfl⟩

theorem sources_next_closings (s : Scanner) :
    s.next.2.sources.map (·.name) = (s.sources.drop (s.closings s.sources)).map (·.name) ∧
      s.next.2.sources.tail = (s.sources.drop (s.closings s.sources)).tail := by
  have hsources : s.next.2.sources = (s.advance s.sources).2.sources := sources_count ..
  rw [hsources]
  exact sources_advance s s.sources

/-- A call to open a source opens it, if there is room, or is refused. -/
theorem answer_cases (s : Scanner) (call : Call) :
    (∃ f, s.depth < maxDepth ∧ s.answer call = (.opened (.ok ()), s.suspend f)) ∨
      (∃ e, Refused s call e ∧ s.answer call = (.opened (.error e), (s.refuse e).2)) ∨
      call = .next := by
  cases call with
  | push f =>
    rcases Nat.lt_or_ge s.depth maxDepth with hroom | hfull
    · exact .inl ⟨f, hroom, by rw [answer, push_of_lt hroom]⟩
    · exact .inr (.inl ⟨_, .noRoom hfull, by rw [answer, push_of_ge hfull]; rfl⟩)
  | openFile t path =>
    rcases Nat.lt_or_ge s.depth maxDepth with hroom | hfull
    · rw [answer, openFile_of_lt hroom]
      cases hread : t.read path with
      | ok contents => exact .inl ⟨_, hroom, rfl⟩
      | error e => exact .inr (.inl ⟨_, .unreadable hroom hread, rfl⟩)
    · exact .inr (.inl ⟨_, .noRoomForFile hfull, by rw [answer, openFile_of_ge hfull]; rfl⟩)
  | next => exact .inr (.inr rfl)

/-- Whether a call opens a source, and which one, is told by the number of open ones. -/
theorem answers_of_depth_eq (h : s.depth = t.depth) (call : Call) :
    (∃ f, s.answer call = (.opened (.ok ()), s.suspend f) ∧
        t.answer call = (.opened (.ok ()), t.suspend f)) ∨
      (∃ e, s.answer call = (.opened (.error e), (s.refuse e).2) ∧
        t.answer call = (.opened (.error e), (t.refuse e).2)) ∨
      call = .next := by
  cases call with
  | push f =>
    rcases Nat.lt_or_ge t.depth maxDepth with hroom | hfull
    · rw [answer, answer, push_of_lt hroom, push_of_lt (h ▸ hroom)]
      exact .inl ⟨f, rfl, rfl⟩
    · rw [answer, answer, push_of_ge hfull, push_of_ge (h ▸ hfull), h]
      exact .inr (.inl ⟨_, rfl, rfl⟩)
  | openFile tree path =>
    rcases Nat.lt_or_ge t.depth maxDepth with hroom | hfull
    · rw [answer, answer, openFile_of_lt hroom, openFile_of_lt (h ▸ hroom)]
      cases tree.read path with
      | ok contents => exact .inl ⟨_, rfl, rfl⟩
      | error e => exact .inr (.inl ⟨_, rfl, rfl⟩)
    · rw [answer, answer, openFile_of_ge hfull, openFile_of_ge (h ▸ hfull), h]
      exact .inr (.inl ⟨_, rfl, rfl⟩)
  | next => exact .inr (.inr rfl)

theorem openFile_ok_iff (s : Scanner) (t : FileTree) (path : String) :
    (s.openFile t path).1 = .ok () ↔
      s.depth < maxDepth ∧ ∃ contents, t.read path = .ok contents := by
  rcases Nat.lt_or_ge s.depth maxDepth with hroom | hfull
  · rw [openFile_of_lt hroom]
    cases t.read path with
    | ok contents => exact iff_of_true rfl ⟨hroom, contents, rfl⟩
    | error e => exact iff_of_false nofun fun h => nomatch h.2
  · rw [openFile_of_ge hfull]
    exact iff_of_false nofun fun h => Nat.not_lt_of_le hfull h.1

theorem push_ok_iff (s : Scanner) (f : Source) : (s.push f).1 = .ok () ↔ s.depth < maxDepth := by
  rcases Nat.lt_or_ge s.depth maxDepth with hroom | hfull
  · rw [push_of_lt hroom]
    exact iff_of_true rfl hroom
  · rw [push_of_ge hfull]
    exact iff_of_false nofun (Nat.not_lt_of_le hfull)

@[simp] theorem depth_suspend (s : Scanner) (f : Source) : (s.suspend f).depth = s.depth + 1 := by
  rw [depth, sources_suspend, List.length_cons, depth]

theorem closedBy_of_opened {result : Except OpenError Unit}
    (h : (s.answer call).1 = .opened result) : s.closedBy call = 0 := by
  cases call with
  | push | openFile => rfl
  | next => cases h

/-- One call opens a source and closes none, or closes some and opens none. -/
theorem depth_answer (s : Scanner) (call : Call) :
    (s.answer call).2.depth + s.closedBy call =
      s.depth + if (s.answer call).1.isOpened then 1 else 0 := by
  rcases answer_cases s call with ⟨f, -, hanswer⟩ | ⟨e, -, hanswer⟩ | rfl
  · rw [closedBy_of_opened (congrArg Prod.fst hanswer), hanswer, depth_suspend]
    rfl
  · rw [closedBy_of_opened (congrArg Prod.fst hanswer), hanswer]
    rfl
  · exact depth_next s

theorem depth_run (s : Scanner) (calls : List Call) :
    (s.run calls).2.depth + s.closed calls =
      s.depth + (s.run calls).1.countP Answer.isOpened := by
  induction calls generalizing s with
  | nil => rfl
  | cons call calls ih =>
    have hone := depth_answer s call
    have hrest := ih (s.answer call).2
    rw [run, closed, List.countP_cons]
    dsimp only
    omega

/-- No call opens a source where there is no room. -/
theorem depth_answer_le (h : s.depth ≤ maxDepth) (call : Call) :
    (s.answer call).2.depth ≤ maxDepth := by
  rcases answer_cases s call with ⟨f, hroom, hanswer⟩ | ⟨e, -, hanswer⟩ | rfl
  · rw [hanswer, depth_suspend]
    exact hroom
  · rw [hanswer]
    exact h
  · exact Nat.le_trans (Nat.le.intro (depth_next s)) h

theorem depth_run_le (h : s.depth ≤ maxDepth) (calls : List Call) :
    (s.run calls).2.depth ≤ maxDepth := by
  induction calls generalizing s with
  | nil => exact h
  | cons call calls ih => exact ih (depth_answer_le h call)

/-! ## What a refused call leaves -/

/-- Two scanners have the same sources open, with the same wishes. -/
structure Agrees (s t : Scanner) : Prop where
  sources : s.sources = t.sources
  preferences : s.preferences = t.preferences

namespace Agrees

theorem depth (h : Agrees s t) : s.depth = t.depth := congrArg List.length h.sources

theorem suspend (h : Agrees s t) (f : Source) : Agrees (s.suspend f) (t.suspend f) :=
  ⟨by rw [sources_suspend, sources_suspend, h.sources],
    by rw [preferences_suspend, preferences_suspend, h.preferences]⟩

theorem refuse (h : Agrees s t) (e : OpenError) : Agrees (s.refuse e).2 (t.refuse e).2 :=
  ⟨h.sources, h.preferences⟩

/-- A call gives back the same from both. -/
theorem answer (h : Agrees s t) (call : Call) :
    (s.answer call).1 = (t.answer call).1 ∧ Agrees (s.answer call).2 (t.answer call).2 := by
  rcases answers_of_depth_eq h.depth call with ⟨f, hs, ht⟩ | ⟨e, hs, ht⟩ | rfl
  · rw [hs, ht]
    exact ⟨rfl, h.suspend f⟩
  · rw [hs, ht]
    exact ⟨rfl, h.refuse e⟩
  · refine ⟨congrArg Answer.token ?_, ?_, ?_⟩
    · rw [observe_eq, observe_eq, h.sources, h.preferences]
    · rw [Scanner.answer, Scanner.answer, sources_next, sources_next, h.sources, h.preferences]
    · rw [Scanner.answer, Scanner.answer, preferences_next, preferences_next, h.preferences]

theorem run (h : Agrees s t) (calls : List Call) : (s.run calls).1 = (t.run calls).1 := by
  induction calls generalizing s t with
  | nil => rfl
  | cons call calls ih =>
    obtain ⟨hanswer, hagrees⟩ := h.answer call
    rw [Scanner.run, Scanner.run, hanswer, ih hagrees]

end Agrees

/-- A refusal is one diagnostic that requires a halt. -/
theorem refuse_eq (s : Scanner) (e : OpenError) : ∃ event : Event,
    (s.refuse e).2 = { s with journal := s.journal.add (.diagnostic event) } ∧
      event.isFatal = true ∧ event.code = e.code ∧ event.message = e.message := by
  refine ⟨⟨.error, e.code, e.message, none, []⟩, rfl, ?_, rfl, rfl⟩
  cases e <;> rfl

/-- **No more than fifteen sources are open, and a refused call changes nothing.** However calls
alternate, the sources open are those opened less those closed, which are the innermost ones; a
source is opened just if fewer than fifteen are open, and a file just if it can be read besides. A
refused call adds one diagnostic to the journal, which requires a halt, changes nothing else, and
shows in no later call. -/
theorem nesting_bounded (preferences : ScanPreferences) (journal : Diagnostic.Journal)
    (calls : List Call) :
    let r := (new preferences journal).run calls
    let s := r.2
    s.depth ≤ maxDepth ∧
    s.depth + (new preferences journal).closed calls = r.1.countP Answer.isOpened ∧
    s.next.2.sources.map (·.name) = (s.sources.drop (s.closedBy .next)).map (·.name) ∧
    s.next.2.sources.tail = (s.sources.drop (s.closedBy .next)).tail ∧
    (∀ f, (s.push f).1 = .ok () ↔ s.depth < maxDepth) ∧
    (∀ t path, (s.openFile t path).1 = .ok () ↔
      s.depth < maxDepth ∧ ∃ contents, t.read path = .ok contents) ∧
    ∀ call e, (s.answer call).1 = .opened (.error e) →
      Refused s call e ∧
      (∃ event : Event,
        (s.answer call).2 = { s with journal := s.journal.add (.diagnostic event) } ∧
          event.isFatal = true ∧ event.code = e.code ∧ event.message = e.message) ∧
      ∀ later, ((s.answer call).2.run later).1 = (s.run later).1 := by
  intro r s
  have hcount := depth_run (new preferences journal) calls
  rw [show (new preferences journal).depth = 0 from rfl, Nat.zero_add] at hcount
  obtain ⟨hnames, houter⟩ := sources_next_closings s
  refine ⟨depth_run_le (Nat.zero_le _) calls, hcount, hnames, houter, push_ok_iff s,
    openFile_ok_iff s, ?_⟩
  intro call e herror
  rcases answer_cases s call with ⟨f, -, hanswer⟩ | ⟨e', hrefused, hanswer⟩ | rfl
  · rw [hanswer] at herror
    cases herror
  · rw [hanswer] at herror ⊢
    obtain rfl : e' = e := Except.error.inj (Answer.opened.inj herror)
    exact ⟨hrefused, refuse_eq s e', Agrees.run ⟨rfl, rfl⟩⟩
  · cases herror

/-- Fifteen sources are open, and a file that cannot be read is refused for their number. -/
theorem nesting_bounded_full :
    let s := ((new default .empty).run (List.replicate 15 (.push (.ofBytes "a.g" [] none)))).2
    let call : Call := .openFile ⟨[], []⟩ "b.g"
    (s.answer call).1 = .opened (.error (.nestingTooDeep 16)) ∧
      Refused s call (.nestingTooDeep 16) := by
  intro s call
  have hdepth : s.depth = 15 := by decide
  have herror : (s.answer call).1 = .opened (.error (.nestingTooDeep 16)) := by
    rw [answer, openFile_of_ge (Nat.le_of_eq hdepth.symm), hdepth]
    rfl
  exact ⟨herror, ((nesting_bounded default .empty _).2.2.2.2.2.2 call _ herror).1⟩

end Scanner
end ClassIndex
