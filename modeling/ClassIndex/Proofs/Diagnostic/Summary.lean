/-
# What is kept of each path, and the counts over all paths

However the events of several paths are interleaved, a path keeps what it would keep of its own
events alone (`Holds.eventsAt`). Two texts are one path if they start at the same place and take the
same steps (`pathParts_eq_iff`), so repeated slashes and inner single dots do not count
(`samePath_insert`). The counts follow from what is kept (`keeps_first`):

| count | of the paths |
| --- | --- |
| failed | an error is kept |
| warned | a warning is kept, and no error |
| clean | neither is kept |
| errors, warnings | all of them, added up |
-/

import ClassIndex.Proofs.Diagnostic.FileLog
import ClassIndex.Proofs.FileTree

namespace ClassIndex
namespace Diagnostic

/-! ## Spellings of a path -/

/-- A path starts outside. -/
def Rooted (path : String) : Prop := path.toList.head? = some '/'

instance : DecidablePred Rooted := fun _ => inferInstanceAs (Decidable (_ = _))

/-- A path starts with a single dot: then the dot counts. -/
def Dotted (path : String) : Prop := (path.toList.splitOn '/').head? = some ['.']

instance : DecidablePred Dotted := fun _ => inferInstanceAs (Decidable (_ = _))

/-- The pieces between the slashes of a path, but for the empty ones and the single dots. -/
def pathSteps (path : String) : List (List Char) :=
  (path.toList.splitOn '/').filter fun piece => piece ≠ [] ∧ piece ≠ ['.']

/-- Two texts spell one path: they start at the same place and take the same steps. -/
structure SamePath (a b : String) : Prop where
  rooted : Rooted a ↔ Rooted b
  dotted : Dotted a ↔ Dotted b
  steps : pathSteps a = pathSteps b

/-- The part that a step stands for. -/
def PathPart.ofStep (step : List Char) : PathPart :=
  if step = ['.', '.'] then .up else .named (String.ofList step)

theorem PathPart.ofStep_injective : Function.Injective ofStep := by
  intro s t h
  unfold ofStep at h
  split at h <;> split at h
  · rename_i hs ht
    exact hs.trans ht.symm
  · cases h
  · cases h
  · exact String.ofList_injective (PathPart.named.inj h)

/-- A path starts outside if its first piece is empty and not its only one. -/
theorem rooted_iff {path : String} :
    Rooted path ↔ ∃ piece pieces, path.toList.splitOn '/' = [] :: piece :: pieces := by
  unfold Rooted
  cases path.toList with
  | nil => simp
  | cons c cs =>
    obtain ⟨piece, pieces, hpieces⟩ := List.exists_cons_of_ne_nil (List.splitOn_ne_nil '/' cs)
    rw [List.splitOn_cons_eq_if_modifyHead, hpieces]
    by_cases hc : c = '/' <;> simp [hc]

/-- The part that opens a path. -/
def PathPart.opening (path : String) : List PathPart :=
  if Rooted path then [.root] else if Dotted path then [.here] else []

/-- **The parts of a path are the place where it starts and its steps.** -/
theorem pathParts_eq (path : String) :
    pathParts path = PathPart.opening path ++ (pathSteps path).map PathPart.ofStep := by
  unfold pathParts
  dsimp only
  rw [Text.splitAt_eq_splitOn]
  congr 1
  · unfold PathPart.opening
    split
    · rename_i hpieces
      rw [if_pos (rooted_iff.2 ⟨_, _, hpieces⟩)]
    · rename_i hpieces
      have hrooted : ¬ Rooted path := by simp [rooted_iff, hpieces]
      have hdotted : Dotted path := by simp [Dotted, hpieces]
      rw [if_neg hrooted, if_pos hdotted]
    · rename_i hroot hdot
      have hrooted : ¬ Rooted path := fun h =>
        let ⟨_, _, hpieces⟩ := rooted_iff.1 h
        hroot _ _ hpieces
      have hdotted : ¬ Dotted path := fun h =>
        let ⟨_, hpieces⟩ := List.head?_eq_some_iff.1 h
        hdot _ hpieces
      rw [if_neg hrooted, if_neg hdotted]
  · rw [pathSteps, ← List.filterMap_eq_map, List.filterMap_filter]
    refine List.filterMap_congr fun piece _ => ?_
    by_cases hempty : piece = []
    · simp [hempty]
    · by_cases hdot : piece = ['.']
      · simp [hdot]
      · by_cases hup : piece = ['.', '.'] <;> simp [PathPart.ofStep, hempty, hdot, hup]

theorem PathPart.ofStep_ne (step : List Char) : ofStep step ≠ .root ∧ ofStep step ≠ .here := by
  unfold ofStep
  split <;> simp

theorem PathPart.root_mem_opening {path : String} : .root ∈ opening path ↔ Rooted path := by
  unfold opening
  by_cases hrooted : Rooted path
  · simp [hrooted]
  · by_cases hdotted : Dotted path <;> simp [hrooted, hdotted]

theorem PathPart.here_mem_opening {path : String} : .here ∈ opening path ↔ Dotted path := by
  unfold opening
  by_cases hrooted : Rooted path
  · obtain ⟨_, _, hpieces⟩ := rooted_iff.1 hrooted
    simp [hrooted, Dotted, hpieces]
  · by_cases hdotted : Dotted path <;> simp [hrooted, hdotted]

/-- Where a path starts is told by its parts. -/
theorem start_mem_pathParts {path : String} {part : PathPart} (h : part = .root ∨ part = .here) :
    part ∈ pathParts path ↔ part ∈ PathPart.opening path := by
  have hsteps : part ∉ (pathSteps path).map PathPart.ofStep := by
    intro hmem
    obtain ⟨step, -, rfl⟩ := List.mem_map.1 hmem
    exact h.elim (PathPart.ofStep_ne step).1 (PathPart.ofStep_ne step).2
  rw [pathParts_eq, List.mem_append, or_iff_left hsteps]

/-- **Two texts have the same parts just if they spell one path.** -/
theorem pathParts_eq_iff {a b : String} : pathParts a = pathParts b ↔ SamePath a b := by
  constructor
  · intro h
    have hstart {part : PathPart} (hpart : part = .root ∨ part = .here) :
        part ∈ PathPart.opening a ↔ part ∈ PathPart.opening b := by
      rw [← start_mem_pathParts hpart, h, start_mem_pathParts hpart]
    have hrooted : Rooted a ↔ Rooted b := by
      rw [← PathPart.root_mem_opening, hstart (.inl rfl), PathPart.root_mem_opening]
    have hdotted : Dotted a ↔ Dotted b := by
      rw [← PathPart.here_mem_opening, hstart (.inr rfl), PathPart.here_mem_opening]
    have hopening : PathPart.opening a = PathPart.opening b := by
      simp only [PathPart.opening, hrooted, hdotted]
    rw [pathParts_eq, pathParts_eq, hopening] at h
    exact ⟨hrooted, hdotted,
      List.map_injective_iff.2 PathPart.ofStep_injective (List.append_cancel_left h)⟩
  · rintro ⟨hrooted, hdotted, hsteps⟩
    simp only [pathParts_eq, PathPart.opening, hrooted, hdotted, hsteps]

/-- **An empty piece or a single dot inside a path does not count.** -/
theorem samePath_insert {piece : String} (hpiece : piece = "" ∨ piece = ".") (a b : String) :
    SamePath (a ++ "/" ++ piece ++ "/" ++ b) (a ++ "/" ++ b) := by
  obtain ⟨first, front, hfront⟩ := List.exists_cons_of_ne_nil (List.splitOn_ne_nil '/' a.toList)
  have hslash : "/".toList = ['/'] := rfl
  have hinner : piece.toList.splitOn '/' = [piece.toList] := by
    rcases hpiece with rfl | rfl <;> rfl
  have hwithout : (a ++ "/" ++ b).toList.splitOn '/'
      = first :: (front ++ b.toList.splitOn '/') := by
    simp [hslash, List.splitOn_append_cons_self, hfront]
  have hwith : (a ++ "/" ++ piece ++ "/" ++ b).toList.splitOn '/'
      = first :: (front ++ piece.toList :: b.toList.splitOn '/') := by
    simp [hslash, List.splitOn_append_cons_self, hfront, hinner]
  refine ⟨?_, ?_, ?_⟩
  · unfold Rooted
    cases ha : a.toList <;> simp [ha, hslash]
  · rw [Dotted, Dotted, hwith, hwithout]
    rfl
  · rw [pathSteps, pathSteps, hwith, hwithout]
    rcases hpiece with rfl | rfl <;> simp [List.filter_cons]

namespace FileLog

variable {log : FileLog} {rs : List (String × Event)}

/-! ## What is kept of a path -/

/-- The events kept for the paths with these parts. -/
def eventsAt (log : FileLog) (key : List PathPart) : List Event :=
  ((log.files.find? (·.parts = key)).map (·.events.toList)).getD []

namespace Holds

/-- **A path keeps what it would keep of its own events alone.** -/
theorem eventsAt (h : Holds log.files rs) (key : List PathPart) :
    log.eventsAt key = kept (recordedFor rs key) := by
  unfold FileLog.eventsAt
  cases hfind : log.files.find? (·.parts = key) with
  | some f =>
    obtain rfl : f.parts = key := by simpa using List.find?_some hfind
    exact h.events f (List.mem_of_find?_eq_some hfind)
  | none =>
    have habsent : key ∉ rs.map fun r => pathParts r.1 := by
      rw [← h.mem_parts, List.mem_map]
      rintro ⟨f, hf, hkey⟩
      simpa [hkey] using List.find?_eq_none.1 hfind f hf
    rw [recordedFor_eq_nil habsent]
    rfl

/-! ## Counts over all paths -/

theorem length_files (h : Holds log.files rs) :
    log.files.length = (rs.map fun r => pathParts r.1).toFinset.card := by
  rw [← h.toFinset_parts, List.toFinset_card_of_nodup h.nodup_parts, List.length_map]

/-- The files whose events have a property are as many as the paths. -/
theorem countP_files (h : Holds log.files rs) (Q : List Event → Prop) [DecidablePred Q] :
    log.files.countP (fun f => Q f.events.toList)
      = ((rs.map fun r => pathParts r.1).toFinset.filter fun key => Q (log.eventsAt key)).card := by
  have hfile : ∀ f ∈ log.files, f.events.toList = log.eventsAt f.parts := fun f hf => by
    rw [h.events f hf, h.eventsAt]
  rw [← h.toFinset_parts, h.nodup_parts.card_eq_countP, List.countP_map]
  refine List.countP_congr fun f hf => ?_
  rw [hfile f hf]
  rfl

end Holds

theorem errors_pos_iff {f : FileEvents} :
    0 < f.errors ↔ ∃ e ∈ f.events.toList, e.level = .error := by
  simp only [FileEvents.errors, List.countP_pos_iff, Event.isError, beq_iff_eq]

theorem warnings_pos_iff {f : FileEvents} :
    0 < f.warnings ↔ ∃ e ∈ f.events.toList, e.level = .warning := by
  simp only [FileEvents.warnings, List.countP_pos_iff, Event.isWarning, beq_iff_eq]

/-- A file has failed, is warned, or is clean. -/
theorem totals_add (log : FileLog) :
    log.totals.clean + log.totals.failed + log.totals.warned = log.totals.files := by
  obtain ⟨files⟩ := log
  unfold totals
  dsimp only
  induction files with
  | nil => rfl
  | cons f files ih =>
    simp only [List.countP_cons, List.length_cons, ← ih]
    rcases Nat.eq_zero_or_pos f.errors with he | he
    · rcases Nat.eq_zero_or_pos f.warnings with hw | hw
      · simp [he, hw]; omega
      · simp [he, hw, hw.ne']; omega
    · simp [he, he.ne']; omega

/-- **A path keeps its first events, and the counts are those of what is kept.** Whatever is
recorded, a path keeps the first thousand events recorded for it, in order, and behind them one
warning if there were more, whatever was recorded for others in between. Paths are told apart by
their parts, which are the same just if the paths start at the same place and take the same steps;
so repeated slashes and inner single dots do not count. Each path is clean, failed or warned: it has
failed just if an error is kept for it, and is warned just if a warning is kept and no error. The
errors and the warnings are those kept for all paths together. -/
theorem keeps_first (rs : List (String × Event)) :
    let log := recordAll .empty rs
    let paths := (rs.map fun r => pathParts r.1).toFinset
    (∀ key, log.eventsAt key = (recordedFor rs key).take 1000
        ++ if 1000 < (recordedFor rs key).length then [overflow] else []) ∧
      overflow
        = ⟨.warning, "ERR001", "Too many events for file (limit: 1000)", none, []⟩ ∧
      (∀ a b : String, pathParts a = pathParts b ↔ SamePath a b) ∧
      (∀ a b : String, pathParts (a ++ "//" ++ b) = pathParts (a ++ "/" ++ b) ∧
        pathParts (a ++ "/./" ++ b) = pathParts (a ++ "/" ++ b)) ∧
      log.totals.files = paths.card ∧
      log.totals.clean + log.totals.failed + log.totals.warned = paths.card ∧
      log.totals.failed
        = (paths.filter fun key => ∃ e ∈ log.eventsAt key, e.level = .error).card ∧
      log.totals.warned
        = (paths.filter fun key => (¬ ∃ e ∈ log.eventsAt key, e.level = .error) ∧
          ∃ e ∈ log.eventsAt key, e.level = .warning).card ∧
      log.totals.errors = ∑ key ∈ paths, (log.eventsAt key).countP (·.level = .error) ∧
      log.totals.warnings = ∑ key ∈ paths, (log.eventsAt key).countP (·.level = .warning) := by
  intro log paths
  have h : Holds log.files rs := holds_recordAll rs
  refine ⟨h.eventsAt, rfl, fun _ _ => pathParts_eq_iff, fun a b => ⟨?_, ?_⟩, h.length_files,
    (totals_add log).trans h.length_files, ?_, ?_, ?_, ?_⟩
  · have hslashes : "//" = "/" ++ "" ++ "/" := rfl
    rw [hslashes, pathParts_eq_iff]
    simpa only [String.append_assoc] using samePath_insert (.inl rfl) a b
  · have hdot : "/./" = "/" ++ "." ++ "/" := rfl
    rw [hdot, pathParts_eq_iff]
    simpa only [String.append_assoc] using samePath_insert (.inr rfl) a b
  · refine (List.countP_congr fun f _ => ?_).trans
      (h.countP_files fun events => ∃ e ∈ events, e.level = .error)
    rw [decide_eq_true_eq, decide_eq_true_eq, errors_pos_iff]
  · refine (List.countP_congr fun f _ => ?_).trans
      (h.countP_files fun events => (¬ ∃ e ∈ events, e.level = .error) ∧
        ∃ e ∈ events, e.level = .warning)
    rw [Bool.and_eq_true, decide_eq_true_eq, decide_eq_true_eq, decide_eq_true_eq,
      ← errors_pos_iff, ← warnings_pos_iff, Nat.not_lt, Nat.le_zero]
  · refine (foldl_count log.files FileEvents.errors).trans ((h.sum_countP (·.isError)).trans ?_)
    simp only [h.eventsAt, paths]
    rfl
  · refine (foldl_count log.files FileEvents.warnings).trans ((h.sum_countP (·.isWarning)).trans ?_)
    simp only [h.eventsAt, paths]
    rfl

end FileLog
end Diagnostic
end ClassIndex
