/-
# A table is a finite map

Whatever is asked of a new table, in any order, it answers as a finite map from keys to non-empty
byte strings would (`run_refines`), however the hashes of the keys collide and however often the
row of slots has doubled. The map answers by these rules:

| call | answer | map afterwards |
| --- | --- | --- |
| insert or replace, nothing to store | empty value | the same |
| insert, key present | already exists | the same |
| insert, key absent | done | with the new value |
| replace, key absent | not found | the same |
| replace, key present | done | with the new value |
| find, key absent | not found | the same |
| find, key present | the head of the value over the head of the given bytes | the same |
| get, size of an entry, contains | read off the map | the same |
| iterate | some key of the map, or none | the same |
-/

import ClassIndex.Proofs.Table.Probe
import Mathlib.Data.Finmap

namespace ClassIndex

/-- A finite map from keys to byte strings. -/
abbrev Mapping := Finmap fun _ : String => List UInt8

namespace Table

/-- Something that is asked of a table. -/
inductive Call where
  | insert (key : String) (value : List UInt8)
  | replace (key : String) (value : List UInt8)
  | find (key : String) (out : List UInt8)
  | get (key : String)
  | entrySize (key : String)
  | contains (key : String)
  | iterate (reset : Bool)

/-- What a table answers. -/
inductive Answer where
  | stored (result : Except TableError Unit)
  | copied (result : Except TableError (Nat × List UInt8))
  | value (value? : Option (List UInt8))
  | size (n : Nat)
  | present (b : Bool)
  | key (key? : Option String)

/-- The answer of a table, and the table afterwards. -/
def answer (t : Table) : Call → Answer × Table
  | .insert key value => ((t.insert key value).map .stored id)
  | .replace key value => ((t.replace key value).map .stored id)
  | .find key out => (.copied (t.find key out), t)
  | .get key => (.value (t.get? key), t)
  | .entrySize key => (.size (t.entrySize key), t)
  | .contains key => (.present (t.contains key), t)
  | .iterate reset => ((t.iterate reset).map .key id)

/-- The answers to a row of calls, and the table after them. -/
def run (t : Table) : List Call → List Answer × Table
  | [] => ([], t)
  | call :: calls =>
    (((t.answer call).1 :: ((t.answer call).2.run calls).1), ((t.answer call).2.run calls).2)

end Table

namespace Mapping

open Table (Call Answer)

/-- How a map answers a call, and the map afterwards. -/
inductive Answers (m : Mapping) : Call → Answer → Mapping → Prop
  | insertEmpty {key : String} :
      Answers m (.insert key []) (.stored (.error (.emptyValue key))) m
  | insertPresent {key : String} {value : List UInt8} : value ≠ [] → key ∈ m →
      Answers m (.insert key value) (.stored (.error (.alreadyExists key))) m
  | insert {key : String} {value : List UInt8} : value ≠ [] → key ∉ m →
      Answers m (.insert key value) (.stored (.ok ())) (Finmap.insert key value m)
  | replaceEmpty {key : String} :
      Answers m (.replace key []) (.stored (.error (.emptyValue key))) m
  | replaceAbsent {key : String} {value : List UInt8} : value ≠ [] → key ∉ m →
      Answers m (.replace key value) (.stored (.error (.notFound key))) m
  | replace {key : String} {value : List UInt8} : value ≠ [] → key ∈ m →
      Answers m (.replace key value) (.stored (.ok ())) (Finmap.insert key value m)
  | findAbsent {key : String} {out : List UInt8} : key ∉ m →
      Answers m (.find key out) (.copied (.error (.notFound key))) m
  | find {key : String} {out value : List UInt8} {n : Nat} : m.lookup key = some value →
      n = min value.length out.length →
      Answers m (.find key out) (.copied (.ok (n, value.take n ++ out.drop n))) m
  | get {key : String} : Answers m (.get key) (.value (m.lookup key)) m
  | entrySize {key : String} :
      Answers m (.entrySize key) (.size ((m.lookup key).getD []).length) m
  | contains {key : String} : Answers m (.contains key) (.present (m.lookup key).isSome) m
  | iterate {reset : Bool} {key? : Option String} : (∀ key ∈ key?, key ∈ m) →
      Answers m (.iterate reset) (.key key?) m

/-- How a map answers a row of calls, and the map after them. -/
inductive Run : Mapping → List Call → List Answer → Mapping → Prop
  | nil (m : Mapping) : Run m [] [] m
  | cons {m m' m'' : Mapping} {call : Call} {a : Answer} {calls : List Call}
      {answers : List Answer} : Answers m call a m' → Run m' calls answers m'' →
      Run m (call :: calls) (a :: answers) m''

end Mapping

namespace Table

/-- A table stands for a map to non-empty byte strings. -/
structure Refines (t : Table) (m : Mapping) : Prop where
  get? : ∀ key, t.get? key = m.lookup key
  contains : ∀ key, t.contains key = true ↔ key ∈ m
  size : t.size = m.keys.card
  nodup_keys : t.keys.Nodup
  mem_keys : ∀ key, key ∈ t.keys ↔ key ∈ m
  value_ne_nil : ∀ key value, m.lookup key = some value → value ≠ []

/-- A table in order: its row is, its count is right, it is not too full, and no value is empty. -/
structure Sound (t : Table) : Prop where
  ordered : Ordered t.slots
  count : t.count = (stored t.slots).length
  load : 4 * (t.count + 1) ≤ 3 * t.slots.size
  value_ne_nil : ∀ e ∈ stored t.slots, e.value ≠ []

/-- A row holds what a map holds. -/
def Holds (slots : Row) (m : Mapping) : Prop :=
  ∀ key value, ⟨key, value⟩ ∈ stored slots ↔ m.lookup key = some value

variable {t : Table} {m : Mapping} {slots slots' : Row} {key : String} {value : List UInt8}

theorem Holds.of_perm (h : Holds slots m) (hp : (stored slots').Perm (stored slots)) :
    Holds slots' m := fun k v => hp.mem_iff.trans (h k v)

namespace Sound

theorem exists_free (h : Sound t) : ∃ f < t.slots.size, entryAt t.slots f = none := by
  have hload := h.load
  have hcount := h.count
  exact Table.exists_free (by omega)

/-- What the search finds is what the map has. -/
theorem entryAt_seek (h : Sound t) (hm : Holds t.slots m) (key : String) :
    (entryAt t.slots (seek t.slots key)).map (·.value) = m.lookup key := by
  obtain ⟨f, hf, hfree⟩ := h.exists_free
  cases he : entryAt t.slots (seek t.slots key) with
  | some e =>
    obtain ⟨hmem, rfl⟩ := (h.ordered.entryAt_seek hf hfree).1 he
    exact ((hm e.key e.value).1 hmem).symm
  | none =>
    cases hv : m.lookup key with
    | none => rfl
    | some v =>
      have := (h.ordered.entryAt_seek hf hfree).2 ⟨(hm key v).2 hv, rfl⟩
      rw [he] at this
      cases this

theorem mem_iff (h : Sound t) (hm : Holds t.slots m) (key : String) :
    key ∈ m ↔ (entryAt t.slots (seek t.slots key)).isSome := by
  rw [← Finmap.lookup_isSome, ← h.entryAt_seek hm, Option.isSome_map]

theorem get?_eq (h : Sound t) (hm : Holds t.slots m) (key : String) :
    t.get? key = m.lookup key := h.entryAt_seek hm key

theorem keys_eq (t : Table) : t.keys = (stored t.slots).map (·.key) := rfl

theorem mem_keys (hm : Holds t.slots m) : key ∈ t.keys ↔ key ∈ m := by
  rw [keys_eq, List.mem_map, Finmap.mem_iff]
  constructor
  · rintro ⟨e, he, rfl⟩
    exact ⟨e.value, (hm e.key e.value).1 he⟩
  · rintro ⟨v, hv⟩
    exact ⟨⟨key, v⟩, (hm key v).2 hv, rfl⟩

/-- A table in order stands for the map that its row holds. -/
theorem refines (h : Sound t) (hm : Holds t.slots m) : Refines t m where
  get? := h.get?_eq hm
  contains key := by rw [Table.contains, h.get?_eq hm, Finmap.lookup_isSome]
  size := by
    have hset : m.keys = t.keys.toFinset := by
      ext key
      rw [Finmap.mem_keys, List.mem_toFinset, mem_keys hm]
    rw [hset, List.toFinset_card_of_nodup (keys_eq t ▸ h.ordered.nodup), keys_eq,
      List.length_map]
    exact h.count
  nodup_keys := h.ordered.nodup
  mem_keys _ := mem_keys hm
  value_ne_nil key value hv := h.value_ne_nil _ ((hm key value).2 hv)

/-- Making room keeps the entries, and leaves room for one more. -/
theorem reserve (h : Sound t) (hm : Holds t.slots m) :
    Sound t.reserve ∧ Holds t.reserve.slots m ∧
      4 * (t.reserve.count + 2) ≤ 3 * t.reserve.slots.size := by
  unfold Table.reserve
  split
  · rename_i hroom
    exact ⟨h, hm, hroom⟩
  · obtain ⟨ho, hp, hsize⟩ := h.ordered.rehashed
    have hload := h.load
    refine ⟨⟨ho, ?_, ?_, ?_⟩, hm.of_perm hp, ?_⟩
    · rw [hp.length_eq]
      exact h.count
    · rw [hsize]
      dsimp only
      omega
    · exact fun e he => h.value_ne_nil e (hp.mem_iff.1 he)
    · rw [hsize]
      dsimp only
      omega

/-- A new entry in the free slot where its search ends. -/
theorem fill (h : Sound t) (hm : Holds t.slots m)
    (hroom : 4 * (t.count + 2) ≤ 3 * t.slots.size) (hv : value ≠ [])
    (hnone : entryAt t.slots (seek t.slots key) = none) :
    Sound { t with slots := place t.slots ⟨key, value⟩, count := t.count + 1 } ∧
      Holds (place t.slots ⟨key, value⟩) (Finmap.insert key value m) := by
  obtain ⟨f, hf, hfree⟩ := h.exists_free
  have hi := seek_lt key hf hfree
  have hp : (stored (place t.slots ⟨key, value⟩)).Perm (⟨key, value⟩ :: stored t.slots) :=
    stored_set_perm hi hnone _
  have hlookup : m.lookup key = none := by rw [← h.entryAt_seek hm, hnone]; rfl
  refine ⟨⟨h.ordered.place hi hnone, ?_, ?_, ?_⟩, fun k v => ?_⟩
  · rw [hp.length_eq, List.length_cons, ← h.count]
  · rw [size_place]
    exact hroom
  · intro e he
    rcases List.mem_cons.1 (hp.mem_iff.1 he) with rfl | he
    · exact hv
    · exact h.value_ne_nil e he
  · rw [hp.mem_iff, List.mem_cons, hm k v]
    by_cases hk : k = key
    · subst hk
      rw [Finmap.lookup_insert, hlookup]
      simp [eq_comm]
    · rw [Finmap.lookup_insert_of_ne _ hk]
      simp [hk]

/-- Another value for an entry. -/
theorem overwrite (h : Sound t) (hm : Holds t.slots m) (hv : value ≠ []) {e : TableEntry}
    (he : entryAt t.slots (seek t.slots key) = some e) :
    Sound { t with slots := t.slots.setIfInBounds (seek t.slots key) (some ⟨e.key, value⟩) } ∧
      Holds (t.slots.setIfInBounds (seek t.slots key) (some ⟨e.key, value⟩))
        (Finmap.insert key value m) := by
  obtain ⟨f, hf, hfree⟩ := h.exists_free
  have hi := seek_lt key hf hfree
  obtain ⟨hmem, rfl⟩ := (h.ordered.entryAt_seek hf hfree).1 he
  obtain ⟨before, after, hs, hset⟩ := stored_split hi
  rw [he] at hs
  have hset := hset (some ⟨e.key, value⟩)
  simp only [Option.toList_some, List.singleton_append] at hs hset
  have hkeys := h.ordered.nodup
  rw [hs, List.map_append, List.map_cons, List.nodup_middle, List.nodup_cons,
    ← List.map_append, List.mem_map] at hkeys
  have hseek : ∀ k, seek (t.slots.setIfInBounds (seek t.slots e.key) (some ⟨e.key, value⟩)) k =
      seek t.slots k := by
    refine fun k => seek_congr Array.size_setIfInBounds (fun i => ?_) k
    rw [entryAt_set hi]
    split
    · rename_i hii
      rw [← hii, he]
      rfl
    · rfl
  refine ⟨⟨?_, ?_, ?_, ?_⟩, fun k v => ?_⟩
  · intro i e' he'
    rw [hseek]
    rw [entryAt_set hi] at he'
    split at he'
    · rename_i hii
      rw [← Option.some.inj he', ← hii]
    · exact h.ordered i e' he'
  · rw [h.count, hs, hset]
    simp
  · rw [Array.size_setIfInBounds]
    exact h.load
  · intro e' he'
    rw [hset, List.mem_append, List.mem_cons] at he'
    rcases he' with hb | rfl | ha
    · exact h.value_ne_nil e' (by rw [hs]; simp [hb])
    · exact hv
    · exact h.value_ne_nil e' (by rw [hs]; simp [ha])
  · have hold := hm k v
    rw [hs, List.mem_append, List.mem_cons] at hold
    rw [hset, List.mem_append, List.mem_cons]
    by_cases hk : k = e.key
    · subst hk
      have hno : (⟨e.key, v⟩ : TableEntry) ∉ before ++ after :=
        fun hmem => hkeys.1 ⟨_, hmem, rfl⟩
      rw [List.mem_append, not_or] at hno
      rw [Finmap.lookup_insert]
      simp [hno.1, hno.2, eq_comm]
    · rw [Finmap.lookup_insert_of_ne _ hk, ← hold]
      have hne : (⟨k, v⟩ : TableEntry) ≠ e := fun h => hk (congrArg (·.key) h)
      simp [hk, hne]

/-! ## One call -/

open Mapping (Answers)

theorem insert_answers (h : Sound t) (hm : Holds t.slots m) (key : String)
    (value : List UInt8) : ∃ m', Answers m (.insert key value) (t.answer (.insert key value)).1 m' ∧
      Sound (t.answer (.insert key value)).2 ∧ Holds (t.answer (.insert key value)).2.slots m' := by
  by_cases hv : value = []
  · subst hv
    exact ⟨m, .insertEmpty, h, hm⟩
  · obtain ⟨hr, hmr, hroom⟩ := h.reserve hm
    have hempty : value.isEmpty = false := by simpa using hv
    cases he : entryAt t.reserve.slots (seek t.reserve.slots key) with
    | some e =>
      have hin : key ∈ m := (hr.mem_iff hmr key).2 (by rw [he]; rfl)
      simp only [answer, Table.insert, hempty, he]
      exact ⟨m, .insertPresent hv hin, hr, hmr⟩
    | none =>
      have hout : key ∉ m := by
        rw [hr.mem_iff hmr, he]
        exact Bool.false_ne_true
      simp only [answer, Table.insert, hempty, he]
      exact ⟨_, .insert hv hout, hr.fill hmr hroom hv he⟩

theorem replace_answers (h : Sound t) (hm : Holds t.slots m) (key : String)
    (value : List UInt8) : ∃ m', Answers m (.replace key value) (t.answer (.replace key value)).1 m' ∧
      Sound (t.answer (.replace key value)).2 ∧ Holds (t.answer (.replace key value)).2.slots m' := by
  by_cases hv : value = []
  · subst hv
    exact ⟨m, .replaceEmpty, h, hm⟩
  · have hempty : value.isEmpty = false := by simpa using hv
    cases he : entryAt t.slots (seek t.slots key) with
    | some e =>
      have hin : key ∈ m := (h.mem_iff hm key).2 (by rw [he]; rfl)
      simp only [answer, Table.replace, hempty, he]
      exact ⟨_, .replace hv hin, h.overwrite hm hv he⟩
    | none =>
      have hout : key ∉ m := by
        rw [h.mem_iff hm, he]
        exact Bool.false_ne_true
      simp only [answer, Table.replace, hempty, he]
      exact ⟨m, .replaceAbsent hv hout, h, hm⟩

theorem find_answers (h : Sound t) (hm : Holds t.slots m) (key : String) (out : List UInt8) :
    Answers m (.find key out) (t.answer (.find key out)).1 m := by
  simp only [answer, Table.find, h.get?_eq hm]
  cases hv : m.lookup key with
  | none => exact .findAbsent (Finmap.lookup_eq_none.1 hv)
  | some v => exact .find hv rfl

/-- The cursor shows a key that is present, and moves nothing but itself. -/
theorem iterate_answers (h : Sound t) (hm : Holds t.slots m) (reset : Bool) :
    Answers m (.iterate reset) (t.answer (.iterate reset)).1 m ∧
      Sound (t.answer (.iterate reset)).2 ∧ Holds (t.answer (.iterate reset)).2.slots m := by
  simp only [answer, Table.iterate]
  split
  · rename_i i hi
    refine ⟨.iterate fun key hkey => ?_, ⟨h.ordered, h.count, h.load, h.value_ne_nil⟩, hm⟩
    obtain ⟨e, he, rfl⟩ := Option.map_eq_some_iff.1 hkey
    exact (mem_keys hm).1 (List.mem_map.2 ⟨e, mem_stored.2 ⟨i, he⟩, rfl⟩)
  · exact ⟨.iterate (fun _ h => by cases h), ⟨h.ordered, h.count, h.load, h.value_ne_nil⟩, hm⟩

/-- **Every call is answered as the map answers it.** -/
theorem answers (h : Sound t) (hm : Holds t.slots m) (call : Call) :
    ∃ m', Answers m call (t.answer call).1 m' ∧ Sound (t.answer call).2 ∧
      Holds (t.answer call).2.slots m' := by
  cases call with
  | insert key value => exact insert_answers h hm key value
  | replace key value => exact replace_answers h hm key value
  | find key out => exact ⟨m, find_answers h hm key out, h, hm⟩
  | get key =>
    refine ⟨m, ?_, h, hm⟩
    rw [answer, h.get?_eq hm]
    exact .get
  | entrySize key =>
    refine ⟨m, ?_, h, hm⟩
    rw [answer, Table.entrySize, h.get?_eq hm]
    exact .entrySize
  | contains key =>
    refine ⟨m, ?_, h, hm⟩
    rw [answer, Table.contains, h.get?_eq hm]
    exact .contains
  | iterate reset => exact ⟨m, iterate_answers h hm reset⟩

/-! ## A row of calls -/

theorem runs (h : Sound t) (hm : Holds t.slots m) (calls : List Call) :
    ∃ m', Mapping.Run m calls (t.run calls).1 m' ∧ Sound (t.run calls).2 ∧
      Holds (t.run calls).2.slots m' := by
  induction calls generalizing t m with
  | nil => exact ⟨m, .nil m, h, hm⟩
  | cons call calls ih =>
    obtain ⟨m', ha, h', hm'⟩ := h.answers hm call
    obtain ⟨m'', hr, h'', hm''⟩ := ih h' hm'
    exact ⟨m'', .cons ha hr, h'', hm''⟩

end Sound

theorem stored_empty : stored Table.empty.slots = [] := rfl

theorem sound_empty : Sound Table.empty where
  ordered i e he := by
    have := mem_stored.2 ⟨i, he⟩
    rw [stored_empty] at this
    cases this
  count := rfl
  load := by decide
  value_ne_nil e he := by
    rw [stored_empty] at he
    cases he

/-- **A new table answers every row of calls as a finite map,** and stands for that map after it. -/
theorem run_refines (calls : List Call) :
    ∃ m, Mapping.Run ∅ calls (Table.empty.run calls).1 m ∧ Refines (Table.empty.run calls).2 m := by
  have hm : Holds Table.empty.slots ∅ := by
    intro key value
    rw [stored_empty, Finmap.lookup_empty]
    simp
  obtain ⟨m, hr, h, hm⟩ := sound_empty.runs hm calls
  exact ⟨m, hr, h.refines hm⟩

end Table
end ClassIndex
