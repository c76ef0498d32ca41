/-
# The key cursor

The cursor of a table divides its keys in two: those in the slots up to the one that it stands on
are behind it, the others are ahead. A call for the next key brings the first key ahead behind the
cursor and shows it; where none is ahead, it shows none and leaves the cursor behind the row.

| call | keys behind the cursor | keys ahead |
| --- | --- | --- |
| the next key | one more, which is shown | the first is gone |
| a new entry, in a free slot | perhaps one more | perhaps one more |
| another value | the same | the same |
| any call that doubles the row | any | any |

As long as the row does not double, no entry leaves its slot (`answer_settles`). So no key is shown
twice, and none that was there from the beginning is passed over (`Visiting.runs`).
-/

import ClassIndex.Proofs.Table.Load

namespace ClassIndex
namespace Table

/-- The keys in some slots, in slot order. -/
def keysOf (slots : List (Option TableEntry)) : List String := (slots.filterMap id).map (·.key)

/-- The slot from which the cursor goes on. -/
def front (t : Table) : Nat := t.cursor.elim 0 (· + 1)

/-- The keys that the cursor has passed. -/
def behind (t : Table) : List String := keysOf (t.slots.toList.take t.front)

/-- The keys that the cursor comes to. -/
def ahead (t : Table) : List String := keysOf (t.slots.toList.drop t.front)

/-- What a call for a key shows. -/
def Answer.shown? : Answer → Option (Option String)
  | .key key? => some key?
  | _ => none

/-- A slot holds the key that another one holds, if there is one. -/
def KeepsKey (x y : Option TableEntry) : Prop := ∀ e ∈ x, ∃ e' ∈ y, e'.key = e.key

/-- No entry leaves its slot, nor the cursor its place. -/
structure Settles (t u : Table) : Prop where
  cursor : u.cursor = t.cursor
  slots : List.Forall₂ KeepsKey t.slots.toList u.slots.toList

variable {slots : Row} {key : String} {value : List UInt8} {e : TableEntry} {x : Option TableEntry}
  {call : Call} {calls : List Call} {i n p : Nat} {t u : Table} {map : Mapping}

/-! ## The next key -/

theorem keysOf_append (l l' : List (Option TableEntry)) :
    keysOf (l ++ l') = keysOf l ++ keysOf l' := by
  rw [keysOf, List.filterMap_append, List.map_append, ← keysOf, ← keysOf]

theorem keysOf_cons (x : Option TableEntry) (l : List (Option TableEntry)) :
    keysOf (x :: l) = (x.map (·.key)).toList ++ keysOf l := by
  cases x <;> rfl

theorem keys_split (slots : Row) (p : Nat) :
    keysOf (slots.toList.take p) ++ keysOf (slots.toList.drop p) = keysOf slots.toList := by
  rw [← keysOf_append, List.take_append_drop]

theorem behind_append_ahead (t : Table) : t.behind ++ t.ahead = t.keys := keys_split t.slots t.front

theorem drop_slots (hp : p < slots.size) :
    slots.toList.drop p = entryAt slots p :: slots.toList.drop (p + 1) := by
  have hlength : p < slots.toList.length := by simpa using hp
  rw [List.drop_eq_getElem_cons hlength, Array.getElem_toList, entryAt,
    Array.getElem?_eq_getElem hp, Option.getD_some]

/-- The next taken slot holds the first key of those from a slot on. -/
theorem nextTaken_cases (h : slots.size - p = n) :
    (nextTaken slots n p = none ∧ keysOf (slots.toList.drop p) = []) ∨
      ∃ i e, nextTaken slots n p = some i ∧ entryAt slots i = some e ∧
        keysOf (slots.toList.drop p) = e.key :: keysOf (slots.toList.drop (i + 1)) := by
  induction n generalizing p with
  | zero =>
    have hend : slots.toList.length ≤ p := by simpa using Nat.le_of_sub_eq_zero h
    exact .inl ⟨rfl, by rw [List.drop_eq_nil_of_le hend]; rfl⟩
  | succ n ih =>
    rw [nextTaken, drop_slots (by omega), keysOf_cons]
    cases he : entryAt slots p with
    | some e => exact .inr ⟨p, e, rfl, he, rfl⟩
    | none => exact ih (by omega)

/-- **The first key ahead is shown, and is behind the cursor then.** Where none is ahead, the
cursor is left behind the row. -/
theorem iterate_cases (t : Table) :
    (t.ahead = [] ∧ t.iterate false = (none, { t with cursor := some t.slots.size })) ∨
      ∃ key u, t.iterate false = (some key, u) ∧ u.slots = t.slots ∧ t.ahead = key :: u.ahead ∧
        u.behind = t.behind ++ [key] := by
  have hiterate {next : Option Nat}
      (h : nextTaken t.slots (t.slots.size - t.front) t.front = next) :
      t.iterate false = next.elim (none, { t with cursor := some t.slots.size })
        fun i => ((entryAt t.slots i).map (·.key), { t with cursor := some i }) := by
    obtain ⟨slots, count, cursor⟩ := t
    cases cursor <;> cases next
    all_goals
      dsimp only [Table.front, Option.elim] at h
      simp only [Table.iterate, h, Option.elim]
  rcases nextTaken_cases (rfl : t.slots.size - t.front = _) with
    ⟨hnext, hahead⟩ | ⟨i, e, hnext, he, hahead⟩
  · exact .inl ⟨hahead, hiterate hnext⟩
  · have hshown := hiterate hnext
    rw [Option.elim_some, he] at hshown
    refine .inr ⟨e.key, { t with cursor := some i }, hshown, rfl, hahead, ?_⟩
    have hbehind := (keys_split t.slots (i + 1)).trans (keys_split t.slots t.front).symm
    rw [hahead, ← List.singleton_append, ← List.append_assoc] at hbehind
    exact List.append_cancel_right hbehind

/-- A reset brings all keys ahead of the cursor. -/
theorem iterate_true (t : Table) : t.iterate true = { t with cursor := none }.iterate false := by
  cases t with
  | mk slots count cursor => cases cursor <;> rfl

/-- Calls for the next key show the keys ahead one by one, and none after them. -/
theorem run_iterates (t : Table) (n : Nat) :
    (t.run (List.replicate n (.iterate false))).1 =
      (List.range n).map fun i => .key t.ahead[i]? := by
  induction n generalizing t with
  | zero => rfl
  | succ n ih =>
    rw [List.replicate_succ, run, ih, List.range_succ_eq_map, List.map_cons, List.map_map]
    rcases iterate_cases t with ⟨hahead, hiterate⟩ | ⟨key, u, hiterate, -, hahead, -⟩
    · have hnone : ({ t with cursor := some t.slots.size } : Table).ahead = [] := by
        rw [ahead, List.drop_eq_nil_of_le (by simp [front])]
        rfl
      have hanswer : t.answer (.iterate false) =
          (.key none, { t with cursor := some t.slots.size }) := by
        rw [answer, hiterate]
        rfl
      rw [hanswer, hnone, hahead]
      rfl
    · have hanswer : t.answer (.iterate false) = (.key (some key), u) := by
        rw [answer, hiterate]
        rfl
      rw [hanswer, hahead]
      rfl

/-! ## Calls that double no row -/

theorem keysOf_sublist {l l' : List (Option TableEntry)} (h : List.Forall₂ KeepsKey l l') :
    (keysOf l).Sublist (keysOf l') := by
  induction h with
  | nil => exact .slnil
  | @cons x y l l' hxy _ ih =>
    rw [keysOf_cons, keysOf_cons]
    refine List.Sublist.append ?_ ih
    cases x with
    | none => exact List.nil_sublist _
    | some e =>
      obtain ⟨e', rfl, hkey⟩ := hxy e rfl
      rw [Option.map_some, Option.map_some, hkey]

/-- Where a slot keeps its key, the others keep theirs. -/
theorem keepsKey_set (h : KeepsKey (entryAt slots i) x) :
    List.Forall₂ KeepsKey slots.toList (slots.setIfInBounds i x).toList := by
  rw [Array.toList_setIfInBounds]
  refine List.forall₂_iff_get.2 ⟨List.length_set.symm, fun j hj hj' => ?_⟩
  rw [List.get_eq_getElem, List.get_eq_getElem, List.getElem_set]
  split
  · rename_i hij
    subst hij
    rwa [entryAt, ← Array.getElem?_toList, List.getElem?_eq_getElem hj, Option.getD_some] at h
  · exact fun e he => ⟨e, he, rfl⟩

namespace Settles

theorem refl (t : Table) : Settles t t := ⟨rfl, List.forall₂_same.2 fun _ _ e he => ⟨e, he, rfl⟩⟩

theorem behind (h : Settles t u) : t.behind.Sublist u.behind := by
  rw [Table.behind, Table.behind, front, front, h.cursor]
  exact keysOf_sublist (List.forall₂_take _ h.slots)

theorem ahead (h : Settles t u) : t.ahead.Sublist u.ahead := by
  rw [Table.ahead, Table.ahead, front, front, h.cursor]
  exact keysOf_sublist (List.forall₂_drop _ h.slots)

end Settles

namespace Sound

/-- A table that makes room without doubling its row had room. -/
theorem reserve_eq (h : Sound t) (hcapacity : t.reserve.capacity = t.capacity) : t.reserve = t := by
  rw [Table.reserve] at hcapacity ⊢
  split
  · rfl
  · rename_i hfull
    rw [if_neg hfull] at hcapacity
    have hload := h.load
    have hdouble : 2 * t.slots.size = t.slots.size := h.ordered.rehashed.2.2.symm.trans hcapacity
    omega

theorem capacity_le_reserve (h : Sound t) : t.capacity ≤ t.reserve.capacity := by
  rw [Table.reserve]
  split
  · exact Nat.le_refl _
  · rw [Table.capacity, Table.capacity, h.ordered.rehashed.2.2]
    omega

/-- No call makes a row smaller. -/
theorem capacity_le (h : Sound t) (call : Call) : t.capacity ≤ (t.answer call).2.capacity := by
  by_cases hroom : call.makesRoom = true
  · obtain ⟨key, value, rfl, hv⟩ := Call.eq_insert hroom
    have hsize : (t.answer (.insert key value)).2.capacity = t.reserve.capacity :=
      (insert_size key hv).1
    rw [hsize]
    exact h.capacity_le_reserve
  · rw [(answer_size (Bool.eq_false_iff.2 hroom)).1]

theorem answered (h : Sound t) (hm : Holds t.slots map) (call : Call) :
    Sound (t.answer call).2 ∧ ∃ map', Holds (t.answer call).2.slots map' :=
  let ⟨map', _, h', hm'⟩ := h.answers hm call
  ⟨h', map', hm'⟩

theorem capacity_le_run (h : Sound t) (hm : Holds t.slots map) (calls : List Call) :
    t.capacity ≤ (t.run calls).2.capacity := by
  induction calls generalizing t map with
  | nil => exact Nat.le_refl _
  | cons call calls ih =>
    obtain ⟨h', map', hm'⟩ := h.answered hm call
    exact Nat.le_trans (h.capacity_le call) (ih h' hm')

/-- **Where the row does not double, no entry leaves its slot,** whatever is stored or asked for but
the next key. -/
theorem answer_settles (h : Sound t) (hcapacity : (t.answer call).2.capacity = t.capacity)
    (hcall : ∀ reset, call ≠ .iterate reset) : Settles t (t.answer call).2 := by
  cases call with
  | insert key value =>
    cases hv : value.isEmpty with
    | true =>
      simp only [Table.answer, Table.insert, hv]
      exact .refl t
    | false =>
      have hreserve : t.reserve = t := h.reserve_eq ((insert_size key hv).1.symm.trans hcapacity)
      cases he : entryAt t.slots (seek t.slots key) with
      | some e =>
        simp only [Table.answer, Table.insert, hv, hreserve, he]
        exact .refl t
      | none =>
        simp only [Table.answer, Table.insert, hv, hreserve, he]
        refine ⟨rfl, keepsKey_set fun e he' => ?_⟩
        rw [he] at he'
        cases he'
  | replace key value =>
    simp only [Table.answer, Table.replace]
    split
    · exact .refl t
    · split
      · rename_i e he
        refine ⟨rfl, keepsKey_set fun e' he' => ⟨_, rfl, ?_⟩⟩
        rw [he] at he'
        exact congrArg (·.key) (Option.some.inj he')
      · exact .refl t
  | iterate reset => exact absurd rfl (hcall reset)
  | find | get | entrySize | contains => exact .refl t

end Sound

/-! ## A whole visit -/

/-- The keys shown so far are behind the cursor, in this order, and none of some keys has been
passed over. -/
structure Visiting (keys passed : List String) (t : Table) : Prop where
  behind : passed.Sublist t.behind
  rest : ∀ key ∈ keys, key ∈ passed ∨ key ∈ t.ahead

/-- Any other call than one for the next key shows no key. -/
theorem shown?_answer (t : Table) (hcall : ∀ reset, call ≠ .iterate reset) :
    (t.answer call).1.shown? = none := by
  cases call with
  | iterate reset => exact absurd rfl (hcall reset)
  | insert | replace | find | get | entrySize | contains => rfl

/-- Where a row of calls does not double the row of slots, none of them does. -/
theorem Sound.run_cons (h : Sound t) (hm : Holds t.slots map)
    (hcapacity : (t.run (call :: calls)).2.capacity = t.capacity) :
    (t.answer call).2.capacity = t.capacity ∧
      ((t.answer call).2.run calls).2.capacity = (t.answer call).2.capacity := by
  obtain ⟨h', map', hm'⟩ := h.answered hm call
  have hcall := h.capacity_le call
  have hcalls := h'.capacity_le_run hm' calls
  change ((t.answer call).2.run calls).2.capacity = t.capacity at hcapacity
  omega

/-- Where the row does not double, its keys stay in this order. -/
theorem Sound.keys_sublist (h : Sound t) (hm : Holds t.slots map)
    (hcapacity : (t.run calls).2.capacity = t.capacity) : t.keys.Sublist (t.run calls).2.keys := by
  induction calls generalizing t map with
  | nil => exact .refl _
  | cons call calls ih =>
    obtain ⟨h', map', hm'⟩ := h.answered hm call
    obtain ⟨hone, hrest⟩ := h.run_cons hm hcapacity
    refine List.Sublist.trans ?_ (ih h' hm' hrest)
    by_cases hcall : ∃ reset, call = .iterate reset
    · obtain ⟨reset, rfl⟩ := hcall
      have hslots : (t.answer (.iterate reset)).2.slots = t.slots := by
        simp only [Table.answer, Table.iterate]
        split <;> rfl
      rw [keys, keys, entries, entries, hslots]
    · exact keysOf_sublist (h.answer_settles hone fun reset hr => hcall ⟨reset, hr⟩).slots

/-- A cursor behind the row shows no further key. -/
theorem Sound.run_past (h : Sound t) (hm : Holds t.slots map) (hpast : t.slots.size < t.front)
    (hreset : .iterate true ∉ calls) (hcapacity : (t.run calls).2.capacity = t.capacity) :
    ∃ n, (t.run calls).1.filterMap Answer.shown? = List.replicate n none := by
  induction calls generalizing t map with
  | nil => exact ⟨0, rfl⟩
  | cons call calls ih =>
    obtain ⟨h', map', hm'⟩ := h.answered hm call
    obtain ⟨hone, hrest⟩ := h.run_cons hm hcapacity
    rw [List.mem_cons, not_or] at hreset
    rw [run, List.filterMap_cons]
    by_cases hcall : ∃ reset, call = .iterate reset
    · obtain ⟨_ | _, rfl⟩ := hcall
      · have hnone : t.ahead = [] := by
          rw [ahead, List.drop_eq_nil_of_le (by simpa using hpast.le)]
          rfl
        rcases iterate_cases t with ⟨-, hiterate⟩ | ⟨key, u, -, -, hahead, -⟩
        · rw [Table.answer, hiterate] at h' hm' hrest ⊢
          obtain ⟨n, hn⟩ := ih h' hm' (Nat.lt_succ_self _) hreset.2 hrest
          exact ⟨n + 1, congrArg (none :: ·) hn⟩
        · rw [hnone] at hahead
          cases hahead
      · exact absurd rfl hreset.1
    · have hcall' : ∀ reset, call ≠ .iterate reset := fun reset hr => hcall ⟨reset, hr⟩
      have hsettles := h.answer_settles hone hcall'
      rw [shown?_answer t hcall']
      refine ih h' hm' ?_ hreset.2 hrest
      rw [front, hsettles.cursor]
      exact (Nat.le_of_eq hone).trans_lt hpast

/-- **Where the row does not double, a visit shows every key that was there from the beginning, and
none twice,** before it comes to the end; then it shows none. -/
theorem Visiting.runs {keys passed : List String} (hv : Visiting keys passed t) (h : Sound t)
    (hm : Holds t.slots map) (hreset : .iterate true ∉ calls)
    (hcapacity : (t.run calls).2.capacity = t.capacity) :
    ∃ more n, (t.run calls).1.filterMap Answer.shown? = more.map some ++ List.replicate n none ∧
      (passed ++ more).Sublist (t.run calls).2.keys ∧ (0 < n → keys ⊆ passed ++ more) := by
  induction calls generalizing t map passed with
  | nil =>
    refine ⟨[], 0, rfl, ?_, nofun⟩
    rw [List.append_nil, run, ← behind_append_ahead]
    exact hv.behind.trans (List.sublist_append_left _ _)
  | cons call calls ih =>
    obtain ⟨h', map', hm'⟩ := h.answered hm call
    obtain ⟨hone, hrest⟩ := h.run_cons hm hcapacity
    have hkeys := h.keys_sublist hm hcapacity
    rw [List.mem_cons, not_or] at hreset
    rw [run, List.filterMap_cons]
    by_cases hcall : ∃ reset, call = .iterate reset
    · obtain ⟨_ | _, rfl⟩ := hcall
      · rw [run, Table.answer] at hkeys
        rcases iterate_cases t with ⟨hahead, hiterate⟩ | ⟨key, u, hiterate, -, hahead, hbehind⟩
        all_goals
          rw [hiterate] at hkeys
          rw [Table.answer, hiterate] at h' hm' hrest ⊢
        · obtain ⟨n, hn⟩ := h'.run_past hm' (Nat.lt_succ_self _) hreset.2 hrest
          refine ⟨[], n + 1, congrArg (none :: ·) hn, ?_, fun _ key hkey => ?_⟩
          · rw [List.append_nil]
            rw [← behind_append_ahead, hahead, List.append_nil] at hkeys
            exact hv.behind.trans hkeys
          · rw [List.append_nil]
            refine (hv.rest key hkey).resolve_right fun hmem => ?_
            rw [hahead] at hmem
            cases hmem
        · have hv' : Visiting keys (passed ++ [key]) u := by
            refine ⟨?_, fun k hk => ?_⟩
            · rw [hbehind]
              exact hv.behind.append_right [key]
            · have hrest' := hv.rest k hk
              rw [hahead, List.mem_cons] at hrest'
              rw [List.mem_append, List.mem_singleton, or_assoc]
              exact hrest'
          obtain ⟨more, n, hshown, hsub, hall⟩ := ih hv' h' hm' hreset.2 hrest
          rw [List.append_assoc, List.singleton_append] at hsub hall
          exact ⟨key :: more, n, congrArg (some key :: ·) hshown, hsub, hall⟩
      · exact absurd rfl hreset.1
    · have hcall' : ∀ reset, call ≠ .iterate reset := fun reset hr => hcall ⟨reset, hr⟩
      have hsettles := h.answer_settles hone hcall'
      rw [shown?_answer t hcall']
      refine ih ⟨hv.behind.trans hsettles.behind, fun key hkey => ?_⟩ h' hm' hreset.2 hrest
      exact (hv.rest key hkey).imp_right fun hmem => hsettles.ahead.subset hmem

/-- **The cursor visits every key once.** In a table that any calls have led to, a reset and calls
for the next key show the keys in slot order, each once, and then none. And in any row of calls
without a further reset, as long as the row of slots does not double, the keys shown are different
keys of the table; none is shown after the end has been; and by then every key that was present at
the reset has been shown. -/
theorem run_visits (earlier : List Call) :
    let t := (empty.run earlier).2
    t.keys.Nodup ∧
    (∀ n, (t.run (.iterate true :: List.replicate n (.iterate false))).1 =
      (List.range (n + 1)).map fun i => .key t.keys[i]?) ∧
    ∀ calls, .iterate true ∉ calls → (t.run (.iterate true :: calls)).2.capacity = t.capacity →
      ∃ visited n, (t.run (.iterate true :: calls)).1.filterMap Answer.shown? =
          visited.map some ++ List.replicate n none ∧
        visited.Nodup ∧ visited.Sublist (t.run (.iterate true :: calls)).2.keys ∧
        (0 < n → t.keys ⊆ visited) := by
  intro t
  have hempty : Holds Table.empty.slots ∅ := by
    intro key value
    rw [stored_empty, Finmap.lookup_empty]
    simp
  obtain ⟨map, -, h, hm⟩ := sound_empty.runs hempty earlier
  -- a reset leaves the table as it is, but for the cursor
  let u : Table := { t with cursor := none }
  have hu : Sound u := ⟨h.ordered, h.count, h.load, h.value_ne_nil⟩
  have hstart (calls : List Call) :
      t.run (.iterate true :: calls) = u.run (.iterate false :: calls) := by
    rw [run, run, answer, iterate_true, answer]
  refine ⟨h.ordered.nodup, fun n => ?_, fun calls hreset hcapacity => ?_⟩
  · rw [hstart, ← List.replicate_succ, run_iterates]
    rfl
  · rw [hstart] at hcapacity ⊢
    have hv : Visiting t.keys [] u := ⟨List.nil_sublist _, fun key hkey => .inr hkey⟩
    obtain ⟨visited, n, hshown, hsub, hall⟩ :=
      hv.runs hu hm (by simpa using hreset) hcapacity
    obtain ⟨-, -, hend, -⟩ := hu.runs hm (.iterate false :: calls)
    exact ⟨visited, n, hshown, hsub.nodup hend.ordered.nodup, hsub, hall⟩

/-- A visit of two keys, during which a third is stored behind the cursor and so not shown. -/
theorem run_visits_insert :
    let t := (empty.run [.insert "a" [1], .insert "b" [2]]).2
    let calls : List Call := [.iterate false, .insert "c" [3], .iterate false, .iterate false]
    .iterate true ∉ calls ∧ (t.run (.iterate true :: calls)).2.capacity = t.capacity ∧
      (t.run (.iterate true :: calls)).1.filterMap Answer.shown? =
        [some "a", some "b", none, none] ∧
      ∃ visited n, (t.run (.iterate true :: calls)).1.filterMap Answer.shown? =
          visited.map some ++ List.replicate n none ∧
        visited.Nodup ∧ visited.Sublist (t.run (.iterate true :: calls)).2.keys ∧
        (0 < n → t.keys ⊆ visited) := by
  intro t calls
  have hreset : .iterate true ∉ calls := by simp [calls]
  have hcapacity : (t.run (.iterate true :: calls)).2.capacity = t.capacity := by decide
  exact ⟨hreset, hcapacity, by decide, (run_visits _).2.2 calls hreset hcapacity⟩

end Table
end ClassIndex
