/-
# A symbol table is a register

Whatever is asked of a new symbol table, in any order, it answers as a register would: a finite
map from keys to symbols, beside the key of the name that is being built up (`run_keeps`). The
symbols come back as they went in, under the name that their key stands for. The register answers
by these rules, of which the first that applies counts:

| call | answer | recorded | register afterwards |
| --- | --- | --- | --- |
| declare, the constant does not fit | value mismatch | one error | the same |
| declare, current key taken | already exists | one error | the same |
| declare | done | nothing | the symbol under the current key |
| update, key free | not found | one error | the same |
| update, the constant does not fit | value mismatch | one error | the same |
| update | done | nothing | the other symbol under the key |
| resolve, key free | not found | one error | the same |
| resolve | the symbol under the key | nothing | the same |
| contains | whether the key is taken | nothing | the same |
| begin, add, truncate | nothing | nothing | another current key |

An error that is recorded has no place, and tells of the key as people read it
(`SymbolError.Recorded`): of the steps that the key stands for, where text before its first marker
is a step too (`Decoration.readable_eq_text`).
-/

import ClassIndex.Proofs.Decoration.Parts
import ClassIndex.Proofs.Symbol.Blob
import ClassIndex.Proofs.Table.Mapping
import ClassIndex.SymbolTable

namespace ClassIndex

open Diagnostic (Event Journal)

namespace Symbol

/-- The constants that may stand under a type. -/
inductive Assigned.Takes : Assigned → Value → Prop
  | int (n : Int64) : Takes .int (.int n)
  | uint (n : UInt64) : Takes .uint (.uint n)
  | no : Takes .bool (.uint 0)
  | yes : Takes .bool (.uint 1)
  | float (bits : UInt64) : Takes .float (.float bits)
  | string (s : String) : Takes .string (.str s)

/-- There is no constant, or it may stand under the type. -/
def Fits (s : Symbol) : Prop := ∀ v ∈ s.value, s.assigned.Takes v

theorem Assigned.accepts_iff (a : Assigned) (v : Value) : a.accepts v = true ↔ a.Takes v := by
  constructor
  · intro h
    unfold accepts at h
    split at h
    · exact .int _
    · exact .uint _
    · simp only [Bool.or_eq_true, beq_iff_eq] at h
      rcases h with rfl | rfl
      · exact .no
      · exact .yes
    · exact .float _
    · exact .string _
    · cases h
  · rintro (_ | _) <;> rfl

theorem valueFits_iff (s : Symbol) : s.valueFits = true ↔ s.Fits := by
  unfold valueFits Fits
  split
  · rename_i v hv
    simp [hv, Assigned.accepts_iff]
  · rename_i hv
    simp [hv]

/-- A symbol under the name that a key stands for. -/
def named (key : String) (s : Symbol) : Symbol := { s with name := some (Decoration.parse key) }

end Symbol

namespace SymbolError

/-- A refusal as it is recorded: an error without a place. -/
def event (e : SymbolError) : Event := ⟨.error, e.code, e.message, none, []⟩

@[simp] theorem diagnostics_record (e : SymbolError) (j : Journal) :
    (e.record j).diagnostics = j.diagnostics ++ [e.event] := by
  simp [record, Journal.unplaced, Journal.report, Diagnostic.Entry.diagnostic?, event]

/-- The one error that is recorded of a refusal, under its code and in its wording. Nothing is said
of bytes that are no symbol: no call is refused for them. -/
inductive Recorded : SymbolError → Event → Prop
  | alreadyExists (name : String) :
      Recorded (.alreadyExists name) ⟨.error, "E040", "name already exists: " ++ name, none, []⟩
  | notFound (name : String) :
      Recorded (.notFound name) ⟨.error, "E041", "name not found: " ++ name, none, []⟩
  | valueMismatch (name type : String) :
      Recorded (.valueMismatch name type)
        ⟨.error, "E043", "value for " ++ name ++ " does not match its " ++ type ++ " type", none,
          []⟩

theorem Recorded.eq_event {e : SymbolError} {d : Event} (h : e.Recorded d) : d = e.event := by
  cases h <;> rfl

end SymbolError

namespace SymbolTable

/-- Something that is asked of a symbol table. -/
inductive Call where
  | begin
  | addName (name : String)
  | addType (type : String)
  | truncate
  | declare (s : Symbol)
  | update (key : String) (s : Symbol)
  | resolve (key : String)
  | contains (key : String)

/-- What a symbol table answers. -/
inductive Answer where
  | nothing
  | stored (result : Except SymbolError Unit)
  | found (result : Except SymbolError Symbol)
  | present (b : Bool)

/-- The answer of a symbol table, with the table and the journal afterwards. -/
def answer (t : SymbolTable) (j : Journal) : Call → Answer × SymbolTable × Journal
  | .begin => (.nothing, t.beginDecoration, j)
  | .addName name => (.nothing, t.addName name, j)
  | .addType type => (.nothing, t.addType type, j)
  | .truncate => (.nothing, t.truncateToClass, j)
  | .declare s => (t.declare j s).map .stored id
  | .update key s => (t.update j key s).map .stored id
  | .resolve key => (.found (t.resolve j key).1, t, (t.resolve j key).2)
  | .contains key => (.present (t.contains key), t, j)

/-- The answers to a row of calls, with the table and the journal after them. -/
def run (t : SymbolTable) (j : Journal) : List Call → List Answer × SymbolTable × Journal
  | [] => ([], t, j)
  | call :: calls =>
    let (a, t, j) := t.answer j call
    let (as, t, j) := run t j calls
    (a :: as, t, j)

end SymbolTable

/-- A finite map from keys to symbols, and the key of the name being built up. -/
structure Register where
  symbols : Finmap fun _ : String => Symbol
  key : String

namespace Register

open SymbolTable (Call Answer)

/-- The part of a key before its second name marker. -/
def firstStep (key : String) : String :=
  match key.toList with
  | [] => ""
  | c :: cs => String.ofList (c :: cs.takeWhile (· != Decoration.nameMarker))

/-- Another symbol under a key. -/
def put (r : Register) (key : String) (s : Symbol) : Register :=
  { r with symbols := r.symbols.insert key (s.named key) }

/-- How a register answers a call, what is recorded of it, and the register afterwards. -/
inductive Answers (r : Register) : Call → Answer → List Event → Register → Prop
  | begin : Answers r .begin .nothing [] { r with key := "" }
  | addName {name : String} :
      Answers r (.addName name) .nothing [] { r with key := r.key ++ "$" ++ name }
  | addType {type : String} :
      Answers r (.addType type) .nothing [] { r with key := r.key ++ "@" ++ type }
  | truncate : Answers r .truncate .nothing [] { r with key := firstStep r.key }
  | declareMismatch {s : Symbol} {e : SymbolError} {d : Event} : ¬ s.Fits →
      e = .valueMismatch (Decoration.readable r.key) s.assigned.text → e.Recorded d →
      Answers r (.declare s) (.stored (.error e)) [d] r
  | declarePresent {s : Symbol} {e : SymbolError} {d : Event} : s.Fits → r.key ∈ r.symbols →
      e = .alreadyExists (Decoration.readable r.key) → e.Recorded d →
      Answers r (.declare s) (.stored (.error e)) [d] r
  | declare {s : Symbol} : s.Fits → r.key ∉ r.symbols →
      Answers r (.declare s) (.stored (.ok ())) [] (r.put r.key s)
  | updateAbsent {key : String} {s : Symbol} {e : SymbolError} {d : Event} : key ∉ r.symbols →
      e = .notFound (Decoration.readable key) → e.Recorded d →
      Answers r (.update key s) (.stored (.error e)) [d] r
  | updateMismatch {key : String} {s : Symbol} {e : SymbolError} {d : Event} :
      key ∈ r.symbols → ¬ s.Fits →
      e = .valueMismatch (Decoration.readable key) s.assigned.text → e.Recorded d →
      Answers r (.update key s) (.stored (.error e)) [d] r
  | update {key : String} {s : Symbol} : key ∈ r.symbols → s.Fits →
      Answers r (.update key s) (.stored (.ok ())) [] (r.put key s)
  | resolveAbsent {key : String} {e : SymbolError} {d : Event} : key ∉ r.symbols →
      e = .notFound (Decoration.readable key) → e.Recorded d →
      Answers r (.resolve key) (.found (.error e)) [d] r
  | resolve {key : String} {s : Symbol} : r.symbols.lookup key = some s →
      Answers r (.resolve key) (.found (.ok s)) [] r
  | contains {key : String} :
      Answers r (.contains key) (.present (r.symbols.lookup key).isSome) [] r

/-- How a register answers a row of calls, what is recorded of them, and the register after
them. -/
inductive Run : Register → List Call → List Answer → List Event → Register → Prop
  | nil (r : Register) : Run r [] [] [] r
  | cons {r r' r'' : Register} {call : Call} {a : Answer} {events : List Event}
      {calls : List Call} {answers : List Answer} {later : List Event} :
      Answers r call a events r' → Run r' calls answers later r'' →
      Run r (call :: calls) (a :: answers) (events ++ later) r''

end Register

/-! ## What the store does -/

namespace Table.Sound

variable {t : Table} {m : Mapping} {key : String} {value : List UInt8}

/-- What happens to a value that goes in under a key. -/
theorem insert_cases (h : Sound t) (hm : Holds t.slots m) (hv : value ≠ []) (key : String) :
    (key ∈ m ∧ ∃ t', t.insert key value = (.error (.alreadyExists key), t') ∧ Sound t' ∧
        Holds t'.slots m) ∨
      (key ∉ m ∧ ∃ t', t.insert key value = (.ok (), t') ∧ Sound t' ∧
        Holds t'.slots (m.insert key value)) := by
  obtain ⟨m', ha, hs, hm'⟩ := h.insert_answers hm key value
  simp only [answer] at ha hs hm'
  rcases hr : t.insert key value with ⟨result, t'⟩
  simp only [hr, Prod.map] at ha hs hm'
  cases ha with
  | insertEmpty => exact absurd rfl hv
  | insertPresent _ hin => exact .inl ⟨hin, t', rfl, hs, hm'⟩
  | insert _ hout => exact .inr ⟨hout, t', rfl, hs, hm'⟩

/-- A value takes the place of the one under its key. -/
theorem replace_of_mem (h : Sound t) (hm : Holds t.slots m) (hv : value ≠ []) (hin : key ∈ m) :
    ∃ t', t.replace key value = (.ok (), t') ∧ Sound t' ∧ Holds t'.slots (m.insert key value) := by
  obtain ⟨m', ha, hs, hm'⟩ := h.replace_answers hm key value
  simp only [answer] at ha hs hm'
  rcases hr : t.replace key value with ⟨result, t'⟩
  simp only [hr, Prod.map] at ha hs hm'
  cases ha with
  | replaceEmpty => exact absurd rfl hv
  | replaceAbsent _ hout => exact absurd hin hout
  | replace _ _ => exact ⟨t', rfl, hs, hm'⟩

end Table.Sound

namespace SymbolTable

open Register (Answers)

variable {t : SymbolTable} {r : Register} {j : Journal} {key : String} {s : Symbol}

theorem mem_names (t : SymbolTable) (key : String) : key ∈ t.names ↔ key ∈ t.table.keys := by
  rw [names, List.mem_mergeSort]

/-- A symbol table keeps a register: the bytes of its symbols, and the bytes of its key. -/
structure Keeps (t : SymbolTable) (r : Register) : Prop where
  sound : t.table.Sound
  holds : ∃ m, Table.Holds t.table.slots m ∧
    ∀ key, m.lookup key = (r.symbols.lookup key).map Symbol.encode
  decoration : t.decoration.toList = Text.utf8 r.key
  marked : ∀ c ∈ r.key.toList.head?, Decoration.isMarker c = true

namespace Keeps

/-! ### The current key -/

theorem currentKey_eq (h : Keeps t r) : t.currentKey = r.key := by
  rw [currentKey, Buffer.text, h.decoration, Text.lossy_utf8]

theorem beginDecoration (h : Keeps t r) : Keeps t.beginDecoration { r with key := "" } where
  sound := h.sound
  holds := h.holds
  decoration := rfl
  marked := by simp

theorem addComponent (h : Keeps t r) {marker : Char} {text : String}
    (hm : Decoration.isMarker marker = true)
    (hbyte : [marker.toNat.toUInt8] = Text.utf8 marker.toString) :
    Keeps (t.addComponent marker text) { r with key := r.key ++ marker.toString ++ text } where
  sound := h.sound
  holds := h.holds
  decoration := by
    simp only [SymbolTable.addComponent, Buffer.appendText, Buffer.toList_append,
      Buffer.toList_push, h.decoration, hbyte, Text.utf8_append]
  marked := by
    have hmarked := h.marked
    cases hk : r.key.toList with
    | nil => simp [hk, hm]
    | cons c cs => simpa [hk] using hmarked

theorem truncateToClass (h : Keeps t r) :
    Keeps t.truncateToClass { r with key := Register.firstStep r.key } where
  sound := h.sound
  holds := h.holds
  decoration := by
    simp only [SymbolTable.truncateToClass, Buffer.toList_truncate, h.decoration,
      Text.utf8_eq_flatMap, Register.firstStep]
    have hmarked := h.marked
    cases hk : r.key.toList with
    | nil => rfl
    | cons c cs =>
      -- the marker at the head is one byte, which counts whatever it is
      have hc : c.toNat < 0x80 := by
        have := hmarked c (by simp [hk])
        simp only [Decoration.isMarker, Bool.or_eq_true, beq_iff_eq] at this
        rcases this with rfl | rfl <;> decide
      have hpart : (c :: cs.takeWhile (· != Decoration.nameMarker)) <+: c :: cs :=
        List.cons_prefix_cons.2 ⟨rfl, List.takeWhile_prefix _⟩
      rw [String.toList_ofList, Decoration.classPrefixLength_utf8 hc]
      exact (List.prefix_iff_eq_take.1 (hpart.flatMap _)).symm
  marked := by
    have hmarked := h.marked
    unfold Register.firstStep
    cases hk : r.key.toList with
    | nil => simp
    | cons c cs => simpa [hk] using hmarked

/-! ### The stored symbols -/

theorem mem_iff {m : Mapping} (hm : ∀ key, m.lookup key = (r.symbols.lookup key).map Symbol.encode)
    (key : String) : key ∈ m ↔ key ∈ r.symbols := by
  rw [← Finmap.lookup_isSome, hm, Option.isSome_map, Finmap.lookup_isSome]

theorem contains_eq (h : Keeps t r) (key : String) :
    t.contains key = (r.symbols.lookup key).isSome := by
  obtain ⟨m, hm, hsymbols⟩ := h.holds
  rw [SymbolTable.contains, Table.contains, h.sound.get?_eq hm, hsymbols, Option.isSome_map]

/-- **A symbol comes back as it went in.** -/
theorem lookup_eq (h : Keeps t r) (key : String) :
    t.lookup key = match r.symbols.lookup key with
      | some s => .ok s
      | none => .error (.notFound (Decoration.readable key)) := by
  obtain ⟨m, hm, hsymbols⟩ := h.holds
  have hget : t.table.get? key = (r.symbols.lookup key).map Symbol.encode := by
    rw [h.sound.get?_eq hm, hsymbols]
  cases hs : r.symbols.lookup key with
  | none => simp [SymbolTable.lookup, Table.entrySize, hget, hs]
  | some s =>
    have hne : s.encode.length ≠ 0 := fun hlen => s.encode_ne_nil (List.length_eq_zero_iff.1 hlen)
    simp [SymbolTable.lookup, Table.entrySize, Table.find, hget, hs, hne, Symbol.decode?_encode]

/-- The names listed are the keys of the register. -/
theorem mem_names (h : Keeps t r) (key : String) : key ∈ t.names ↔ key ∈ r.symbols := by
  obtain ⟨m, hm, hsymbols⟩ := h.holds
  rw [SymbolTable.mem_names, (h.sound.refines hm).mem_keys, mem_iff hsymbols]

theorem size_eq (h : Keeps t r) : t.size = r.symbols.keys.card := by
  obtain ⟨m, hm, hsymbols⟩ := h.holds
  have hkeys : m.keys = r.symbols.keys := by
    ext key
    rw [Finmap.mem_keys, Finmap.mem_keys, mem_iff hsymbols]
  rw [size, (h.sound.refines hm).size, hkeys]

/-- A table that holds one more symbol, or another one under a key, keeps what it is put into. -/
theorem put (h : Keeps t r) {table : Table} {m : Mapping} (hs : table.Sound)
    (hsymbols : ∀ key, m.lookup key = (r.symbols.lookup key).map Symbol.encode)
    (hm : Table.Holds table.slots (m.insert key (blob key s))) :
    Keeps { t with table } (r.put key s) where
  sound := hs
  holds := by
    refine ⟨_, hm, fun k => ?_⟩
    by_cases hk : k = key
    · subst hk
      simp [Register.put, Finmap.lookup_insert, blob, Symbol.named]
    · simp [Register.put, Finmap.lookup_insert_of_ne _ hk, hsymbols]
  decoration := h.decoration
  marked := h.marked

theorem checkValue_of_fits (hs : s.Fits) (key : String) : checkValue key s = .ok () := by
  rw [checkValue, if_pos (s.valueFits_iff.2 hs)]

theorem checkValue_of_not_fits (hs : ¬ s.Fits) (key : String) :
    checkValue key s = .error (.valueMismatch (Decoration.readable key) s.assigned.text) := by
  rw [checkValue, if_neg (fun h => hs (s.valueFits_iff.1 h))]

theorem blob_ne_nil (key : String) (s : Symbol) : blob key s ≠ [] := Symbol.encode_ne_nil _

/-! ### One call -/

/-- A call is answered as the register answers it, and so is every later one. -/
def Answered (t : SymbolTable) (r : Register) (j : Journal) (call : Call) : Prop :=
  ∃ r' events, Answers r call (t.answer j call).1 events r' ∧
    Keeps (t.answer j call).2.1 r' ∧
    (t.answer j call).2.2.diagnostics = j.diagnostics ++ events

theorem declare (h : Keeps t r) (j : Journal) (s : Symbol) : Answered t r j (.declare s) := by
  unfold Answered
  simp only [answer, SymbolTable.declare, h.currentKey_eq]
  by_cases hs : s.Fits
  · obtain ⟨m, hm, hsymbols⟩ := h.holds
    rw [checkValue_of_fits hs]
    rcases h.sound.insert_cases hm (blob_ne_nil r.key s) r.key with
      ⟨hin, table, hinsert, hsound, hheld⟩ | ⟨hout, table, hinsert, hsound, hheld⟩
    · simp only [hinsert]
      exact ⟨r, _, .declarePresent hs ((mem_iff hsymbols _).1 hin) rfl (.alreadyExists _),
        ⟨hsound, ⟨m, hheld, hsymbols⟩, h.decoration, h.marked⟩, SymbolError.diagnostics_record _ j⟩
    · simp only [hinsert]
      refine ⟨_, _, .declare hs fun hin => hout ((mem_iff hsymbols _).2 hin),
        h.put hsound hsymbols hheld, ?_⟩
      simp
  · rw [checkValue_of_not_fits hs]
    exact ⟨r, _, .declareMismatch hs rfl (.valueMismatch _ _), h,
      SymbolError.diagnostics_record _ j⟩

theorem update (h : Keeps t r) (j : Journal) (key : String) (s : Symbol) :
    Answered t r j (.update key s) := by
  unfold Answered
  simp only [answer, SymbolTable.update, h.contains_eq, Finmap.lookup_isSome]
  by_cases hin : key ∈ r.symbols
  · rw [if_pos hin]
    by_cases hs : s.Fits
    · obtain ⟨m, hm, hsymbols⟩ := h.holds
      obtain ⟨table, hreplace, hsound, hheld⟩ :=
        h.sound.replace_of_mem hm (blob_ne_nil key s) ((mem_iff hsymbols key).2 hin)
      rw [checkValue_of_fits hs]
      simp only [hreplace]
      exact ⟨_, _, .update hin hs, h.put hsound hsymbols hheld, (List.append_nil _).symm⟩
    · rw [checkValue_of_not_fits hs]
      exact ⟨r, _, .updateMismatch hin hs rfl (.valueMismatch _ _), h,
        SymbolError.diagnostics_record _ j⟩
  · rw [if_neg hin]
    exact ⟨r, _, .updateAbsent hin rfl (.notFound _), h, SymbolError.diagnostics_record _ j⟩

theorem resolve (h : Keeps t r) (j : Journal) (key : String) : Answered t r j (.resolve key) := by
  unfold Answered
  simp only [answer, SymbolTable.resolve, h.lookup_eq]
  cases hs : r.symbols.lookup key with
  | some s => exact ⟨r, _, .resolve hs, h, (List.append_nil _).symm⟩
  | none =>
    exact ⟨r, _, .resolveAbsent (Finmap.lookup_eq_none.1 hs) rfl (.notFound _), h,
      SymbolError.diagnostics_record _ j⟩

/-- **Every call is answered as the register answers it.** -/
theorem answered (h : Keeps t r) (j : Journal) (call : Call) : Answered t r j call := by
  have hnil : j.diagnostics = j.diagnostics ++ [] := (List.append_nil _).symm
  cases call with
  | begin => exact ⟨_, _, .begin, h.beginDecoration, hnil⟩
  | addName name => exact ⟨_, _, .addName, h.addComponent (by decide) (by decide), hnil⟩
  | addType type => exact ⟨_, _, .addType, h.addComponent (by decide) (by decide), hnil⟩
  | truncate => exact ⟨_, _, .truncate, h.truncateToClass, hnil⟩
  | declare s => exact h.declare j s
  | update key s => exact h.update j key s
  | resolve key => exact h.resolve j key
  | contains key =>
    refine ⟨r, _, ?_, h, hnil⟩
    rw [answer, h.contains_eq]
    exact .contains

/-! ### A row of calls -/

theorem runs (h : Keeps t r) (j : Journal) (calls : List Call) :
    ∃ r' events, Register.Run r calls (t.run j calls).1 events r' ∧
      Keeps (t.run j calls).2.1 r' ∧
      (t.run j calls).2.2.diagnostics = j.diagnostics ++ events := by
  induction calls generalizing t r j with
  | nil => exact ⟨r, [], .nil r, h, (List.append_nil _).symm⟩
  | cons call calls ih =>
    obtain ⟨r', events, ha, h', hj⟩ := h.answered j call
    obtain ⟨r'', later, hr, h'', hj'⟩ := ih h' (t.answer j call).2.2
    exact ⟨r'', events ++ later, .cons ha hr, h'', by rw [run, hj', hj, List.append_assoc]⟩

end Keeps

theorem keeps_empty : Keeps empty ⟨∅, ""⟩ where
  sound := Table.sound_empty
  holds := by
    refine ⟨∅, fun key value => ?_, fun key => ?_⟩
    · rw [show empty.table = Table.empty from rfl, Table.stored_empty, Finmap.lookup_empty]
      simp
    · simp
  decoration := rfl
  marked := by simp

/-- **A new symbol table answers every row of calls as a register,** records one error for each
refusal and nothing else, and stands for that register afterwards. A key is read as the steps that
it stands for, where text before its first marker is a step too. -/
theorem run_keeps (j : Journal) (calls : List Call) :
    ∃ r events, Register.Run ⟨∅, ""⟩ calls (empty.run j calls).1 events r ∧
      (empty.run j calls).2.2.diagnostics = j.diagnostics ++ events ∧
      (empty.run j calls).2.1.currentKey = r.key ∧
      (∀ key, (empty.run j calls).2.1.contains key = (r.symbols.lookup key).isSome) ∧
      (∀ key s, (empty.run j calls).2.1.lookup key = .ok s ↔ r.symbols.lookup key = some s) ∧
      ∀ key, Decoration.readable key = (Decoration.parse (Decoration.opened key)).text := by
  obtain ⟨r, events, hr, h, hj⟩ := keeps_empty.runs j calls
  refine ⟨r, events, hr, hj, h.currentKey_eq, h.contains_eq, fun key s => ?_,
    Decoration.readable_eq_text⟩
  rw [h.lookup_eq]
  cases r.symbols.lookup key <;> simp

end SymbolTable
end ClassIndex
