/-
# Where the search for a key ends

The search for a key goes right from its home slot, round the end, and stops at the first slot
that is free or holds the key. In a row with a free slot it always stops (`exists_seek`), and where
it stops is settled by the slots before (`seek_eq`). A row is in order if the search for the key
of every entry ends at that entry (`Ordered`). Two facts follow: no two entries have one key, and
the search for any key finds its entry if there is one. Placing an entry in the free slot where
its search ends keeps the row in order: that slot is on no other entry's way, since every slot on
the way is taken.
-/

import ClassIndex.Table
import Mathlib.Data.List.Basic
import Mathlib.Data.Nat.Find

namespace ClassIndex
namespace Table

/-- A row of slots. -/
abbrev Row := Array (Option TableEntry)

variable {slots : Row} {key : String} {e : TableEntry} {i j : Nat}

theorem entryAt_eq_some : entryAt slots i = some e ↔ slots[i]? = some (some e) := by
  unfold entryAt
  cases slots[i]? <;> simp

theorem entryAt_set (hi : i < slots.size) (x : Option TableEntry) :
    entryAt (slots.setIfInBounds i x) j = if i = j then x else entryAt slots j := by
  unfold entryAt
  rw [Array.getElem?_setIfInBounds]
  by_cases h : i = j
  · subst h; simp [hi]
  · simp [h]

/-- The search for a key stops at a slot that is free or holds the key. -/
def Stops (slots : Row) (key : String) (i : Nat) : Prop :=
  ∀ e, entryAt slots i = some e → e.key = key

theorem stops_iff_map :
    Stops slots key i ↔ ∀ k ∈ (entryAt slots i).map (·.key), k = key := by
  unfold Stops
  cases entryAt slots i <;> simp

theorem probe_stop (h : Stops slots key i) (steps : Nat) : probe slots key steps i = i := by
  cases steps with
  | zero => rfl
  | succ n =>
    unfold probe
    split
    · rename_i e he
      rw [if_pos (h e (entryAt_eq_some.2 he))]
    · rfl

theorem probe_go (h : ¬ Stops slots key i) (steps : Nat) :
    probe slots key (steps + 1) i = probe slots key steps ((i + 1) % slots.size) := by
  obtain ⟨e, he, hne⟩ : ∃ e, entryAt slots i = some e ∧ e.key ≠ key := by
    simpa [Stops] using h
  rw [probe, entryAt_eq_some.1 he]
  simp [hne]

/-- The search stops where it first can. -/
theorem probe_eq (hgo : ∀ k < j, ¬ Stops slots key ((i + k) % slots.size))
    (hstop : Stops slots key ((i + j) % slots.size)) (hi : i < slots.size) {steps : Nat}
    (hj : j ≤ steps) : probe slots key steps i = (i + j) % slots.size := by
  induction j generalizing i steps with
  | zero =>
    have hmod : (i + 0) % slots.size = i := Nat.mod_eq_of_lt hi
    rw [hmod] at hstop ⊢
    exact probe_stop hstop steps
  | succ j ih =>
    obtain ⟨n, rfl⟩ : ∃ n, steps = n + 1 := ⟨steps - 1, by omega⟩
    have hshift : ∀ k, ((i + 1) % slots.size + k) % slots.size = (i + (k + 1)) % slots.size := by
      intro k
      rw [Nat.mod_add_mod, Nat.add_assoc, Nat.add_comm 1 k]
    have hfirst := hgo 0 (by omega)
    rw [Nat.add_zero, Nat.mod_eq_of_lt hi] at hfirst
    rw [probe_go hfirst, ih _ _ (Nat.mod_lt _ (by omega)) (by omega), hshift]
    · intro k hk
      rw [hshift]
      exact hgo (k + 1) (by omega)
    · rwa [hshift]

theorem home_lt (h : 0 < slots.size) (key : String) : home slots.size key < slots.size :=
  Nat.mod_lt _ h

/-- The search for a key ends where it first can stop. -/
theorem seek_eq (hj : j < slots.size)
    (hgo : ∀ k < j, ¬ Stops slots key ((home slots.size key + k) % slots.size))
    (hstop : Stops slots key ((home slots.size key + j) % slots.size)) :
    seek slots key = (home slots.size key + j) % slots.size :=
  probe_eq hgo hstop (home_lt (by omega) key) (by omega)

/-- **Where a slot is free, every search stops,** at the latest there. -/
theorem exists_seek (key : String) {f : Nat} (hf : f < slots.size) (hfree : entryAt slots f = none) :
    ∃ j < slots.size, seek slots key = (home slots.size key + j) % slots.size ∧
      (∀ k < j, ¬ Stops slots key ((home slots.size key + k) % slots.size)) ∧
      Stops slots key (seek slots key) := by
  have hh : home slots.size key < slots.size := home_lt (by omega) key
  -- the free slot is so many steps to the right of the home slot
  obtain ⟨d, hd, hdf⟩ : ∃ d < slots.size, (home slots.size key + d) % slots.size = f := by
    by_cases hle : home slots.size key ≤ f
    · refine ⟨f - home slots.size key, by omega, ?_⟩
      rw [Nat.add_sub_cancel' hle, Nat.mod_eq_of_lt hf]
    · refine ⟨f + slots.size - home slots.size key, by omega, ?_⟩
      rw [show home slots.size key + (f + slots.size - home slots.size key) = f + slots.size by
        omega, Nat.add_mod_right, Nat.mod_eq_of_lt hf]
  have hex : ∃ d, Stops slots key ((home slots.size key + d) % slots.size) := by
    refine ⟨d, fun e he => ?_⟩
    rw [hdf, hfree] at he
    cases he
  classical
  have hmin := Nat.find_min' hex (m := d) (by
    intro e he
    rw [hdf, hfree] at he
    cases he)
  have hlt : Nat.find hex < slots.size := by omega
  have hgo : ∀ k < Nat.find hex, ¬ Stops slots key ((home slots.size key + k) % slots.size) :=
    fun k hk => Nat.find_min hex hk
  have hseek := seek_eq hlt hgo (Nat.find_spec hex)
  exact ⟨Nat.find hex, hlt, hseek, hgo, hseek ▸ Nat.find_spec hex⟩

/-- The search for a key looks at keys only. -/
theorem seek_congr {slots' : Row} (hsize : slots'.size = slots.size)
    (h : ∀ i, (entryAt slots' i).map (·.key) = (entryAt slots i).map (·.key)) (key : String) :
    seek slots' key = seek slots key := by
  have hprobe : ∀ steps i, probe slots' key steps i = probe slots key steps i := by
    intro steps
    induction steps with
    | zero => exact fun _ => rfl
    | succ n ih =>
      intro i
      have hiff : Stops slots' key i ↔ Stops slots key i := by
        rw [stops_iff_map, stops_iff_map, h i]
      by_cases hstop : Stops slots key i
      · rw [probe_stop hstop, probe_stop (hiff.2 hstop)]
      · rw [probe_go hstop, probe_go (mt hiff.1 hstop), hsize, ih]
  unfold seek
  rw [hsize, hprobe]

/-! ## The entries of a row -/

/-- The entries of a row in slot order. -/
def stored (slots : Row) : List TableEntry := slots.toList.filterMap id

theorem mem_stored : e ∈ stored slots ↔ ∃ i, entryAt slots i = some e := by
  unfold stored
  rw [List.mem_filterMap]
  constructor
  · rintro ⟨x, hx, rfl⟩
    obtain ⟨i, hi⟩ := List.mem_iff_getElem?.1 hx
    exact ⟨i, entryAt_eq_some.2 (by simpa using hi)⟩
  · rintro ⟨i, hi⟩
    exact ⟨some e, List.mem_iff_getElem?.2 ⟨i, by simpa using entryAt_eq_some.1 hi⟩, rfl⟩

/-- A row with fewer entries than slots has a free slot. -/
theorem exists_free (h : (stored slots).length < slots.size) :
    ∃ f < slots.size, entryAt slots f = none := by
  by_contra hno
  have hall : ∀ x ∈ slots.toList, (id x).isSome := by
    intro x hx
    obtain ⟨i, hi, rfl⟩ := List.mem_iff_getElem.1 hx
    have hsize : i < slots.size := by simpa using hi
    cases hx : slots.toList[i] with
    | none =>
      refine absurd ⟨i, hsize, ?_⟩ hno
      rw [entryAt, Array.getElem?_eq_getElem hsize]
      simpa using hx
    | some e => rfl
  have hlen : (stored slots).length = slots.size := by
    unfold stored
    rw [List.length_filterMap_eq_countP, List.countP_eq_length.2 hall, Array.length_toList]
  exact absurd h (by rw [hlen]; exact lt_irrefl _)

/-- What stands around a slot in a row. -/
theorem stored_split (hi : i < slots.size) : ∃ before after : List TableEntry,
    stored slots = before ++ ((entryAt slots i).toList ++ after) ∧
      ∀ x : Option TableEntry, stored (slots.setIfInBounds i x) = before ++ (x.toList ++ after) := by
  have hcons : ∀ (x : Option TableEntry) (l : List (Option TableEntry)),
      (x :: l).filterMap id = x.toList ++ l.filterMap id := by
    intro x l
    cases x <;> rfl
  refine ⟨(slots.toList.take i).filterMap id, (slots.toList.drop (i + 1)).filterMap id, ?_,
    fun x => ?_⟩
  · have hi' : i < slots.toList.length := by simpa using hi
    have hx : slots.toList[i] = entryAt slots i := by
      rw [entryAt, Array.getElem?_eq_getElem hi]
      simp
    rw [← hx, ← hcons, ← List.filterMap_append, List.getElem_cons_drop, List.take_append_drop]
    rfl
  · rw [← hcons, ← List.filterMap_append, stored, Array.toList_setIfInBounds,
      List.set_eq_take_append_cons_drop, if_pos (by simpa using hi)]

/-- An entry put in a free slot joins the others. -/
theorem stored_set_perm (hi : i < slots.size) (hfree : entryAt slots i = none)
    (e : TableEntry) : (stored (slots.setIfInBounds i (some e))).Perm (e :: stored slots) := by
  obtain ⟨before, after, hs, hset⟩ := stored_split hi
  rw [hset, hs, hfree]
  exact List.perm_middle

/-! ## Rows in order -/

/-- The search for the key of every entry ends at that entry. -/
def Ordered (slots : Row) : Prop := ∀ i e, entryAt slots i = some e → seek slots e.key = i

theorem Ordered.nodup (h : Ordered slots) : ((stored slots).map (·.key)).Nodup := by
  unfold stored List.Nodup
  rw [List.pairwise_map, List.pairwise_filterMap, List.pairwise_iff_getElem]
  rintro i j hi hj hij e he e' he' hk
  have hi' : entryAt slots i = some e := by
    rw [entryAt_eq_some, ← Array.getElem?_toList, List.getElem?_eq_getElem hi]
    exact congrArg some he
  have hj' : entryAt slots j = some e' := by
    rw [entryAt_eq_some, ← Array.getElem?_toList, List.getElem?_eq_getElem hj]
    exact congrArg some he'
  have := h i e hi'
  rw [hk, h j e' hj'] at this
  omega

/-- **In a row in order, the search for a key finds its entry,** and nothing else. -/
theorem Ordered.entryAt_seek (h : Ordered slots) {f : Nat} (hf : f < slots.size)
    (hfree : entryAt slots f = none) :
    entryAt slots (seek slots key) = some e ↔ e ∈ stored slots ∧ e.key = key := by
  constructor
  · intro he
    obtain ⟨j, -, -, -, hstop⟩ := exists_seek key hf hfree
    exact ⟨mem_stored.2 ⟨_, he⟩, hstop e he⟩
  · rintro ⟨he, rfl⟩
    obtain ⟨i, hi⟩ := mem_stored.1 he
    rwa [h i e hi]

/-- A slot that is free is on no search's way, so filling it leaves every other search alone. -/
theorem seek_set (hi : i < slots.size) (hfree : entryAt slots i = none)
    (hstop : Stops (slots.setIfInBounds i (some e)) key (seek slots key)) :
    seek (slots.setIfInBounds i (some e)) key = seek slots key := by
  obtain ⟨j, hj, hseek, hgo, -⟩ := exists_seek key hi hfree
  have hsize : (slots.setIfInBounds i (some e)).size = slots.size := Array.size_setIfInBounds
  rw [hseek] at hstop ⊢
  have h := @seek_eq (slots.setIfInBounds i (some e)) key j (by rwa [hsize])
  rw [hsize] at h
  refine h (fun k hk hs => hgo k hk ?_) hstop
  intro e' he'
  refine hs e' ?_
  rw [entryAt_set hi, if_neg, he']
  rintro rfl
  rw [hfree] at he'
  cases he'

/-- **An entry placed where its search ends keeps the row in order.** -/
theorem Ordered.place (h : Ordered slots) (hi : seek slots e.key < slots.size)
    (hfree : entryAt slots (seek slots e.key) = none) : Ordered (place slots e) := by
  intro i e' he'
  unfold Table.place at he' ⊢
  rw [entryAt_set hi] at he'
  by_cases heq : seek slots e.key = i
  · subst heq
    rw [if_pos rfl] at he'
    obtain rfl := Option.some.inj he'
    refine seek_set hi hfree fun e'' he'' => ?_
    rw [entryAt_set hi, if_pos rfl] at he''
    exact congrArg (·.key) (Option.some.inj he'').symm
  · rw [if_neg heq] at he'
    have hseek := h i e' he'
    rw [seek_set hi hfree, hseek]
    intro e'' he''
    rw [hseek, entryAt_set hi, if_neg heq, he'] at he''
    exact congrArg (·.key) (Option.some.inj he'').symm

theorem seek_lt (key : String) {f : Nat} (hf : f < slots.size) (hfree : entryAt slots f = none) :
    seek slots key < slots.size := by
  obtain ⟨j, -, hj, -, -⟩ := exists_seek key hf hfree
  rw [hj]
  exact Nat.mod_lt _ (by omega)

/-- A new entry joins a row that is not full. -/
theorem Ordered.place_new (h : Ordered slots) (hlt : (stored slots).length < slots.size)
    (hnew : e.key ∉ (stored slots).map (·.key)) :
    Ordered (Table.place slots e) ∧ (stored (Table.place slots e)).Perm (e :: stored slots) := by
  obtain ⟨f, hf, hfree⟩ := exists_free hlt
  have hi := seek_lt e.key hf hfree
  have hnone : entryAt slots (seek slots e.key) = none := by
    by_contra hsome
    obtain ⟨e', he'⟩ := Option.ne_none_iff_exists'.1 hsome
    obtain ⟨hmem, hkey⟩ := (h.entryAt_seek hf hfree).1 he'
    exact hnew (List.mem_map.2 ⟨e', hmem, hkey⟩)
  exact ⟨h.place hi hnone, stored_set_perm hi hnone e⟩

@[simp] theorem size_place (slots : Row) (e : TableEntry) :
    (place slots e).size = slots.size := Array.size_setIfInBounds

/-- New entries with different keys join a row that has room for all of them. -/
theorem Ordered.foldl_place (es : List TableEntry) (h : Ordered slots)
    (hroom : es.length + (stored slots).length ≤ slots.size)
    (hkeys : ((es ++ stored slots).map (·.key)).Nodup) :
    Ordered (es.foldl Table.place slots) ∧
      (stored (es.foldl Table.place slots)).Perm (es ++ stored slots) ∧
      (es.foldl Table.place slots).size = slots.size := by
  induction es generalizing slots with
  | nil => exact ⟨h, List.Perm.refl _, rfl⟩
  | cons e es ih =>
    rw [List.cons_append, List.map_cons, List.nodup_cons, List.map_append, List.mem_append,
      not_or] at hkeys
    rw [List.length_cons] at hroom
    obtain ⟨ho, hp⟩ := h.place_new (by omega) hkeys.1.2
    have hmid : (es ++ stored (Table.place slots e)).Perm (e :: (es ++ stored slots)) :=
      (hp.append_left es).trans List.perm_middle
    have hlen : (stored (Table.place slots e)).length = (stored slots).length + 1 := hp.length_eq
    obtain ⟨h₁, h₂, h₃⟩ := ih ho (by rw [hlen, size_place]; omega) (by
      rw [(hmid.map _).nodup_iff, List.map_cons, List.nodup_cons, List.map_append,
        List.mem_append, not_or]
      exact hkeys)
    exact ⟨h₁, h₂.trans hmid, h₃.trans (size_place slots e)⟩

/-- **Doubling a row keeps its entries and brings them in order.** -/
theorem Ordered.rehashed (h : Ordered slots) :
    Ordered (Table.rehashed slots) ∧ (stored (Table.rehashed slots)).Perm (stored slots) ∧
      (Table.rehashed slots).size = 2 * slots.size := by
  have hfree : ∀ i, entryAt (Array.replicate (2 * slots.size) (none : Option TableEntry)) i =
      none := by
    intro i
    unfold entryAt
    rw [Array.getElem?_replicate]
    split <;> rfl
  have hnil : stored (Array.replicate (2 * slots.size) none) = [] := by
    refine List.eq_nil_iff_forall_not_mem.2 fun e he => ?_
    obtain ⟨i, hi⟩ := mem_stored.1 he
    rw [hfree] at hi
    cases hi
  have hle : (stored slots).length ≤ slots.size := by
    rw [← Array.length_toList]
    exact List.length_filterMap_le ..
  have := @Ordered.foldl_place (Array.replicate (2 * slots.size) none) (stored slots)
    (fun i e hi => by rw [hfree] at hi; cases hi)
    (by rw [hnil, Array.size_replicate, List.length_nil]; omega)
    (by rw [hnil, List.append_nil]; exact h.nodup)
  rw [hnil, List.append_nil, Array.size_replicate] at this
  exact this

end Table
end ClassIndex
