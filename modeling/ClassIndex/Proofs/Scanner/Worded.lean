/-
# Calls for tokens are told in printed words

A call for a token may close several sources on its way. Each fault that it records is told in
printed words and in the name of a source that was open (`next_worded`), if the sources, where they
fail, fail in printed words. So the names of the sources are all of a line that is taken from
outside as it is.
-/

import ClassIndex.Proofs.Cursor.Worded
import ClassIndex.Proofs.Scanner.Isolation
import ClassIndex.Proofs.Scanner.Located

namespace ClassIndex

open Diagnostic (Event Journal)

namespace Scanner

/-- All sources have such names, and fail in printed words if they fail. -/
def Legible (P : String → Prop) (sources : List Source) : Prop :=
  ∀ f ∈ sources, P f.name ∧ f.FailsPrinted

variable {P : String → Prop} {sources : List Source} {s : Scanner}

theorem outcome_worded (warns : Bool) (h : Legible P sources) :
    (∀ e ∈ (outcome warns sources).1.diagnostics, ∃ name, P name ∧ e.WordedIn name) ∧
      Legible P (outcome warns sources).2 := by
  induction sources with
  | nil => exact ⟨List.forall_mem_nil _, h⟩
  | cons f outer ih =>
    obtain ⟨⟨hname, hfails⟩, houter⟩ := List.forall_mem_cons.1 h
    have hfresh : (freshCursor warns f).Worded f.name := ⟨rfl, hfails, List.forall_mem_nil _⟩
    have htold := hfresh.token
    rcases htoken : (freshCursor warns f).token with ⟨_ | kind, c⟩
    all_goals
      rw [htoken] at htold
      have hfaults : ∀ e ∈ c.faults, ∃ name, P name ∧ e.WordedIn name :=
        fun e he => ⟨f.name, hname, htold.faults e he⟩
    · cases outer with
      | nil =>
        simp only [outcome, htoken]
        exact ⟨hfaults, List.forall_mem_nil _⟩
      | cons g outer =>
        obtain ⟨hrest, hleft⟩ := ih houter
        rw [outcome_cons_of_none htoken (List.cons_ne_nil _ _)]
        exact ⟨List.forall_mem_append.2 ⟨hfaults, hrest⟩, hleft⟩
    · simp only [outcome, htoken]
      have hsource : P c.source.name ∧ c.source.FailsPrinted :=
        ⟨htold.named.symm ▸ hname, htold.fails⟩
      exact ⟨hfaults, List.forall_mem_cons.2 ⟨hsource, houter⟩⟩

/-- **A call for a token tells of its faults in printed words,** each in the name of a source that
was open. -/
theorem next_worded (h : Legible P s.sources) :
    s.journal.Adds (fun e => ∃ name, P name ∧ e.WordedIn name) s.next.2.journal ∧
      Legible P s.next.2.sources := by
  obtain ⟨hfaults, hleft⟩ := outcome_worded s.preferences.warnUnrecognized h
  rw [sources_next]
  exact ⟨⟨_, (next_shows s).diagnostics, hfaults⟩, hleft⟩

/-- A scanner is in a source that is open, or in none. -/
theorem sourceName_of_legible (h : Legible P s.sources) (hnone : P noSource) : P s.sourceName := by
  unfold sourceName
  split
  · rename_i f outer hs
    exact (h f (hs ▸ List.mem_cons_self)).1
  · exact hnone

theorem file_location (s : Scanner) : s.location.file = s.sourceName := by
  unfold location sourceName
  split <;> rfl

end Scanner
end ClassIndex
