/-
# What a log keeps of each file

Paths are in order, and none but equal ones are alike. So one more event goes to the one file of its
path or to a new file in its place (`recordIn_cases`), and a log of any row of events holds each
path once, whatever was recorded for others in between (`holds_recordAll`):

| recorded for a path | kept |
| --- | --- |
| at most a thousand events | all of them |
| more | the first thousand, and one warning |

The totals of a log are sums over its paths of what is kept (`Holds.errors`, `Holds.warnings`).
Where nothing is dropped they count all events (`sum_countP_filter`).
-/

import Mathlib.Algebra.BigOperators.Group.Finset.Basic
import Mathlib.Algebra.Ring.Nat
import ClassIndex.Diagnostic.FileLog
import ClassIndex.Proofs.Text.Utf8
import ClassIndex.Proofs.Token.Word

namespace ClassIndex

/-! ## The order of paths -/

theorem Text.utf8_injective : Function.Injective Text.utf8 := fun s t h =>
  Option.some.inj (by rw [← Text.strict?_utf8 s, h, Text.strict?_utf8])

namespace Diagnostic

namespace PathPart

/-- The bytes of a name. -/
def bytes : PathPart → List UInt8
  | named name => Text.utf8 name
  | _ => []

/-- Parts are in the order of their kinds, names among them in the order of their bytes. -/
theorem compare_eq :
    PathPart.compare = compareLex (compareOn PathPart.ctorIdx) (compareOn bytes) := by
  funext p q
  cases p <;> cases q
  case named.named => exact Token.compareBytes_eq _ _
  all_goals rfl

instance : Std.TransCmp PathPart.compare := by
  rw [compare_eq]
  infer_instance

instance : Std.LawfulEqCmp PathPart.compare where
  eq_of_compare {p q} h := by
    cases p <;> cases q
    case named.named => rw [Text.utf8_injective (Token.eq_of_compareBytes h)]
    all_goals first | rfl | cases h

end PathPart

theorem comparePaths_eq : comparePaths = List.compareLex PathPart.compare := by
  funext p q
  fun_induction comparePaths p q with
  | case1 | case2 | case3 => rfl
  | case4 p ps q qs h ih => rw [List.compareLex_cons_cons, h, ← ih]; rfl
  | case5 p ps q qs h =>
    rw [List.compareLex_cons_cons]
    cases hcompare : p.compare q with
    | eq => exact absurd hcompare h
    | lt | gt => rfl

instance : Std.TransCmp comparePaths := by
  rw [comparePaths_eq]
  infer_instance

instance : Std.LawfulEqCmp comparePaths := by
  rw [comparePaths_eq]
  infer_instance

/-- The parts of a file's path. -/
def FileEvents.parts (f : FileEvents) : List PathPart := pathParts f.path

namespace FileLog

variable {files : List FileEvents} {log : FileLog} {rs : List (String × Event)} {path : String}
  {e : Event} {es : List Event} {key : List PathPart}

/-! ## What is kept of the events of a file -/

/-- The first events, and one warning for all others. -/
def kept (es : List Event) : List Event :=
  es.take limit ++ if limit < es.length then [overflow] else []

theorem kept_of_le (h : es.length ≤ limit) : kept es = es := by
  rw [kept, if_neg (Nat.not_lt.2 h), List.append_nil, List.take_of_length_le h]

theorem kept_of_lt (h : limit < es.length) : kept es = es.take limit ++ [overflow] := by
  rw [kept, if_pos h]

theorem countP_kept (P : Event → Bool) (es : List Event) : (kept es).countP P
    = (es.take limit).countP P + if limit < es.length then [overflow].countP P else 0 := by
  rw [kept, List.countP_append]
  split <;> rfl

/-- One event after another is kept, up to the limit. -/
theorem toList_keep {events : Array Event} (h : events.toList = kept es) (e : Event) :
    (keep events e).toList = kept (es ++ [e]) := by
  have hsize : events.size = (kept es).length := by rw [← h, Array.length_toList]
  unfold keep
  rcases Nat.lt_trichotomy es.length limit with hlt | heq | hgt
  · rw [kept_of_le hlt.le] at h hsize
    rw [if_pos (by omega), Array.toList_push, h, kept_of_le (by simp; omega)]
  · rw [kept_of_le heq.le] at h hsize
    rw [if_neg (by omega), if_pos (by omega), Array.toList_push, h, kept_of_lt (by simp; omega),
      ← heq, List.take_left]
  · have hlength : (kept es).length = limit + 1 := by
      rw [kept_of_lt hgt, List.length_append, List.length_take, Nat.min_eq_left hgt.le]
      rfl
    rw [if_neg (by omega), if_neg (by omega), h, kept_of_lt hgt, kept_of_lt (by simp; omega),
      List.take_append_of_le_length hgt.le]

/-! ## What a log holds -/

/-- Files stand in the order of their paths, each once. -/
def Ordered (files : List FileEvents) : Prop :=
  files.Pairwise fun f g => comparePaths f.parts g.parts = .lt

/-- **One more event goes to the file of its path,** or to a new one between the others. -/
theorem recordIn_cases (h : Ordered files) (path : String) (e : Event) :
    ∃ before old? after, files = before ++ Option.toList old? ++ after ∧
      recordIn files path e = before ++
        ⟨(old?.map FileEvents.path).getD path, keep ((old?.map FileEvents.events).getD #[]) e⟩
          :: after ∧
      (∀ f ∈ old?, f.parts = pathParts path) ∧
      (∀ f ∈ before, comparePaths f.parts (pathParts path) = .lt) ∧
      ∀ f ∈ after, comparePaths (pathParts path) f.parts = .lt := by
  induction files with
  | nil => exact ⟨[], none, [], rfl, rfl, nofun, nofun, nofun⟩
  | cons f rest ih =>
    obtain ⟨hfirst, hrest⟩ := List.pairwise_cons.1 h
    rw [recordIn]
    split
    · rename_i hcompare
      have hparts : pathParts path = f.parts := Std.LawfulEqCmp.eq_of_compare hcompare
      refine ⟨[], some f, rest, rfl, rfl, fun g hg => ?_, nofun, hparts ▸ hfirst⟩
      rw [← Option.some.inj hg, hparts]
    · rename_i hcompare
      refine ⟨[], none, f :: rest, rfl, rfl, nofun, nofun, List.forall_mem_cons.2 ⟨hcompare, ?_⟩⟩
      exact fun g hg => Std.TransCmp.lt_trans hcompare (hfirst g hg)
    · rename_i hcompare
      obtain ⟨before, old?, after, rfl, hrecord, hold, hbefore, hafter⟩ := ih hrest
      have hlt : comparePaths f.parts (pathParts path) = .lt :=
        Std.OrientedCmp.gt_iff_lt.1 hcompare
      exact ⟨f :: before, old?, after, rfl, by rw [hrecord]; rfl, hold,
        List.forall_mem_cons.2 ⟨hlt, hbefore⟩, hafter⟩

/-- The events recorded for paths with these parts, in order. -/
def recordedFor (rs : List (String × Event)) (key : List PathPart) : List Event :=
  (rs.filter fun r => pathParts r.1 = key).map Prod.snd

theorem recordedFor_concat (rs : List (String × Event)) (path : String) (e : Event)
    (key : List PathPart) : recordedFor (rs ++ [(path, e)]) key
      = recordedFor rs key ++ if pathParts path = key then [e] else [] := by
  by_cases h : pathParts path = key <;> simp [recordedFor, h]

theorem recordedFor_eq_nil (h : key ∉ rs.map fun r => pathParts r.1) : recordedFor rs key = [] := by
  rw [recordedFor, List.map_eq_nil_iff, List.filter_eq_nil_iff]
  intro r hr hkey
  exact h (List.mem_map.2 ⟨r, hr, of_decide_eq_true hkey⟩)

/-- Files hold what is kept of these events, each file what is recorded for its path. -/
structure Holds (files : List FileEvents) (rs : List (String × Event)) : Prop where
  ordered : Ordered files
  events : ∀ f ∈ files, f.events.toList = kept (recordedFor rs f.parts)
  mem_parts : ∀ key, key ∈ files.map FileEvents.parts ↔ key ∈ rs.map fun r => pathParts r.1

theorem parts_ne {f g : List PathPart} (h : comparePaths f g = .lt) : f ≠ g := by
  rintro rfl
  have heq : comparePaths f f = .eq := Std.ReflCmp.compare_self
  rw [heq] at h
  cases h

/-- **A log goes on to hold what is recorded,** and what was recorded for other paths. -/
theorem Holds.record (h : Holds files rs) (path : String) (e : Event) :
    Holds (recordIn files path e) (rs ++ [(path, e)]) := by
  obtain ⟨before, old?, after, rfl, hrecord, hold, hbefore, hafter⟩ :=
    recordIn_cases h.ordered path e
  have hothers : ∀ f ∈ before ++ after, f.parts ≠ pathParts path := by
    intro f hf
    rcases List.mem_append.1 hf with hf | hf
    · exact parts_ne (hbefore f hf)
    · exact (parts_ne (hafter f hf)).symm
  have hsub : (before ++ after).Sublist (before ++ old?.toList ++ after) :=
    (List.sublist_append_left before _).append_right after
  rw [hrecord]
  generalize hg : FileEvents.mk ((old?.map FileEvents.path).getD path) _ = g
  have hparts : g.parts = pathParts path := by
    cases old? with
    | none => rw [← hg]; rfl
    | some f => rw [← hold f rfl, ← hg]; rfl
  have hevents : g.events.toList = kept (recordedFor rs g.parts ++ [e]) := by
    rw [← hg]
    refine toList_keep ?_ e
    rw [hg, hparts]
    cases old? with
    | none =>
      rw [recordedFor_eq_nil, kept_of_le (Nat.zero_le _)]
      · rfl
      · rw [← h.mem_parts, List.mem_map]
        rintro ⟨f, hf, hkey⟩
        exact hothers f (by simpa using hf) hkey
    | some f => rw [← hold f rfl]; exact h.events f (by simp)
  refine ⟨?_, fun f hf => ?_, fun key => ?_⟩
  · obtain ⟨hfront, hback, hcross⟩ := List.pairwise_append.1 (h.ordered.sublist hsub)
    rw [← hparts] at hbefore hafter
    refine List.pairwise_append.2 ⟨hfront, List.pairwise_cons.2 ⟨hafter, hback⟩, ?_⟩
    exact fun f hf => List.forall_mem_cons.2 ⟨hbefore f hf, hcross f hf⟩
  · rw [recordedFor_concat]
    rcases List.mem_cons.1 (List.perm_middle.mem_iff.1 hf) with rfl | hin
    · rw [if_pos hparts.symm, hevents]
    · rw [if_neg (hothers f hin).symm, List.append_nil]
      exact h.events f (hsub.subset hin)
  · have hkeys : (key ∈ (rs ++ [(path, e)]).map fun r => pathParts r.1) ↔
        key ∈ (before ++ old?.toList ++ after).map FileEvents.parts ∨ key = pathParts path := by
      rw [h.mem_parts, List.map_append, List.mem_append, List.map_singleton, List.mem_singleton]
    rw [hkeys, (List.perm_middle.map _).mem_iff, List.map_cons, List.mem_cons, hparts]
    constructor
    · rintro (rfl | hin)
      · exact .inr rfl
      · exact .inl (List.map_subset _ hsub.subset hin)
    · rintro (hin | rfl)
      · obtain ⟨f, hf, rfl⟩ := List.mem_map.1 hin
        rcases List.mem_append.1 hf with hf | hf
        · rcases List.mem_append.1 hf with hf | hf
          · exact .inr (List.mem_map_of_mem (List.mem_append_left after hf))
          · exact .inl (hold f (Option.mem_toList.1 hf))
        · exact .inr (List.mem_map_of_mem (List.mem_append_right before hf))
      · exact .inl rfl

/-- A log with a row of events recorded. -/
def recordAll (log : FileLog) (rs : List (String × Event)) : FileLog :=
  rs.foldl (fun log r => log.record r.1 r.2) log

theorem recordAll_append (log : FileLog) (rs rs' : List (String × Event)) :
    log.recordAll (rs ++ rs') = (log.recordAll rs).recordAll rs' :=
  List.foldl_append

/-- **A log holds what was recorded.** -/
theorem holds_recordAll (rs : List (String × Event)) : Holds (recordAll .empty rs).files rs := by
  induction rs using List.reverseRecOn with
  | nil => exact ⟨.nil, nofun, fun key => .rfl⟩
  | append_singleton rs r ih =>
    rw [recordAll_append]
    exact ih.record r.1 r.2

/-! ## Totals -/

namespace Holds

theorem nodup_parts (h : Holds files rs) : (files.map FileEvents.parts).Nodup :=
  List.pairwise_map.2 (h.ordered.imp parts_ne)

theorem toFinset_parts (h : Holds files rs) :
    (files.map FileEvents.parts).toFinset = (rs.map fun r => pathParts r.1).toFinset :=
  Finset.ext fun key => by rw [List.mem_toFinset, List.mem_toFinset, h.mem_parts]

/-- **What is counted in each file adds up over the paths.** -/
theorem sum_countP (h : Holds files rs) (P : Event → Bool) :
    (files.map fun f => f.events.toList.countP P).sum
      = ∑ key ∈ (rs.map fun r => pathParts r.1).toFinset, (kept (recordedFor rs key)).countP P := by
  rw [← h.toFinset_parts, List.sum_toFinset _ h.nodup_parts, List.map_map]
  congr 1
  exact List.map_congr_left fun f hf => by rw [h.events f hf]; rfl

end Holds

theorem foldl_count (files : List FileEvents) (count : FileEvents → Nat) :
    files.foldl (fun n f => n + count f) 0 = (files.map count).sum := by
  rw [List.sum_eq_foldl, List.foldl_map]

/-- **The errors are those among the first events of each path.** -/
theorem Holds.errors (h : Holds log.files rs) :
    log.totals.errors = ∑ key ∈ (rs.map fun r => pathParts r.1).toFinset,
      ((recordedFor rs key).take limit).countP (·.isError) := by
  refine (foldl_count log.files FileEvents.errors).trans ((h.sum_countP (·.isError)).trans ?_)
  refine Finset.sum_congr rfl fun key _ => ?_
  rw [countP_kept, show [overflow].countP (·.isError) = 0 from rfl, ite_self, Nat.add_zero]

/-- **The warnings are those among the first events of each path,** and one for each path that has
more. -/
theorem Holds.warnings (h : Holds log.files rs) :
    log.totals.warnings = ∑ key ∈ (rs.map fun r => pathParts r.1).toFinset,
      (((recordedFor rs key).take limit).countP (·.isWarning)
        + if limit < (recordedFor rs key).length then 1 else 0) := by
  refine (foldl_count log.files FileEvents.warnings).trans ((h.sum_countP (·.isWarning)).trans ?_)
  exact Finset.sum_congr rfl fun key _ => countP_kept ..

/-- What is counted under each key adds up to all there is. -/
theorem sum_countP_filter {α κ : Type} [DecidableEq κ] (xs : List α) (k : α → κ) (P : α → Bool) :
    ∑ key ∈ (xs.map k).toFinset, (xs.filter fun x => k x = key).countP P = xs.countP P := by
  have hcount (key : κ) : (xs.filter fun x => k x = key).countP P
      = Multiset.count key ↑((xs.filter P).map k) := by
    rw [Multiset.coe_count, List.count_eq_countP, List.countP_map, List.countP_filter,
      List.countP_filter]
    exact List.countP_congr fun x _ => by simp [and_comm]
  rw [Finset.sum_congr rfl fun key _ => hcount key, Multiset.sum_count_eq_card]
  · rw [Multiset.coe_card, List.length_map, List.countP_eq_length_filter]
  · intro key hkey
    exact List.mem_toFinset.2 (List.map_subset _ (List.filter_subset_self _) hkey)

end FileLog
end Diagnostic
end ClassIndex
