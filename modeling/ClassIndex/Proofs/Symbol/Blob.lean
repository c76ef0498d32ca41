/-
# Stored symbols are read back

The bytes stored for a symbol are read back as this symbol (`decode?_encode`): every tag names one
kind, type or scope, every word and signed word is in the range of its numbers, and a name keeps
its steps with their types. A floating-point number comes back with its bit pattern. The bytes are
those of one compact JSON text, and of no other (`blob_round_trips`).
-/

import ClassIndex.Proofs.Json
import ClassIndex.Proofs.Json.Written
import ClassIndex.Proofs.Text.Utf8
import ClassIndex.Symbol.Blob

namespace ClassIndex
namespace Symbol

theorem Kind.ofTag?_tag (k : Kind) : Kind.ofTag? k.tag = some k := by
  cases k <;> decide

theorem Assigned.ofTag?_tag (a : Assigned) : Assigned.ofTag? a.tag = some a := by
  cases a <;> decide

theorem Scope.ofTag?_tag (s : Scope) : Scope.ofTag? s.tag = some s := by
  cases s <;> decide

theorem word?_toNat (n : UInt64) : word? (Int.ofNat n.toNat) = some n := by
  have h : Int.ofNat n.toNat < UInt64.size := Int.ofNat_lt.2 n.toNat_lt
  rw [word?, if_pos (by simpa using h)]
  simp

theorem signedWord?_toInt (n : Int64) : signedWord? n.toInt = some n := by
  have h₁ : Int64.minValue.toInt ≤ n.toInt := Int64.minValue_le_toInt n
  have h₂ : n.toInt ≤ Int64.maxValue.toInt := Int64.toInt_le n
  rw [signedWord?, if_pos (by simpa using ⟨h₁, h₂⟩), Int64.ofInt_toInt]

section

variable {α : Type} {write : α → Json} {read : Json → Option α}

/-- A row is read back whose items are. -/
theorem mapM_map (h : ∀ a, read (write a) = some a) (as : List α) :
    (as.map write).mapM read = some as := by
  induction as with
  | nil => rfl
  | cons a as ih =>
    rw [List.map_cons, List.mapM_cons, h a, ih]
    rfl

/-- What may be absent is read back, as nothing present is written like its absence. -/
theorem optional?_map (h : ∀ a, read (write a) = some a) (hnull : ∀ a, write a ≠ .null)
    (a : Option α) : optional? read ((a.map write).getD .null) = some a := by
  cases a with
  | none => rfl
  | some a =>
    rw [Option.map_some, Option.getD_some, optional?.eq_2 _ _ (hnull a), h]
    rfl

end

theorem Value.ofJson?_json (v : Value) : Value.ofJson? v.json = some v := by
  cases v with
  | int n => rw [json, ofJson?, signedWord?_toInt]; rfl
  | uint n => rw [json, Json.nat, ofJson?, word?_toNat]; rfl
  | float bits => rw [json, Json.nat, ofJson?, word?_toNat]; rfl
  | str s => rfl

theorem segmentOf?_json (s : Segment) :
    segmentOf? (.obj [("name", .str s.name), ("types", .arr (s.types.map .str))]) = some s := by
  have htypes : (s.types.map Json.str).mapM textOf? = some s.types :=
    mapM_map (fun _ => rfl : ∀ t, textOf? (.str t) = some t) s.types
  rw [segmentOf?, htypes]
  rfl

theorem decorationOf?_json (d : Decoration) : decorationOf? d.json = some d := by
  rw [Decoration.json, decorationOf?, mapM_map segmentOf?_json]
  rfl

theorem ofJson?_json (s : Symbol) : ofJson? s.json = some s := by
  have hvalue := optional?_map Value.ofJson?_json (fun v h => by cases v <;> cases h) s.value
  have hname := optional?_map decorationOf?_json (fun d h => by cases h) s.name
  have hmask : word? (s.mask.bits.toNat : Int) = some s.mask.bits := word?_toNat s.mask.bits
  simp [json, ofJson?, Kind.ofTag?_tag, Assigned.ofTag?_tag, Scope.ofTag?_tag, hmask, hvalue,
    hname]

/-- **The bytes stored for a symbol are read back as the symbol.** -/
theorem decode?_encode (s : Symbol) : decode? s.encode = some s := by
  simp [decode?, encode, Text.strict?_utf8, Json.parse?_text, ofJson?_json]

/-- Something is stored for every symbol: nothing is no symbol. -/
theorem encode_ne_nil (s : Symbol) : s.encode ≠ [] := by
  intro h
  have hs := decode?_encode s
  have hempty : decode? [] = none := by
    rw [decode?, show [] = Text.utf8 "" from rfl, Text.strict?_utf8]
    decide
  rw [h, hempty] at hs
  cases hs

/-- The bytes stored for a symbol are those of what its data is written as. -/
theorem encode_eq_utf8_iff (s : Symbol) (text : String) :
    s.encode = Text.utf8 text ↔ Json.Written s.json text.toList := by
  rw [Json.written_iff, encode]
  constructor
  · intro h
    have hread := Text.strict?_utf8 s.json.text
    rw [h, Text.strict?_utf8] at hread
    rw [Option.some.inj hread, Json.text, String.toList_ofList]
  · intro h
    rw [Json.text, ← h, String.ofList_toList]

/-- **A symbol, its data and its bytes determine one another.** What is stored for a symbol is read
back as the symbol, for which the same is stored again. It is never nothing: it is the one compact
JSON text of the symbol's data. -/
theorem blob_round_trips (s : Symbol) :
    decode? s.encode = some s ∧ (decode? s.encode).map encode = some s.encode ∧ s.encode ≠ [] ∧
      ∀ text : String, s.encode = Text.utf8 text ↔ Json.Written s.json text.toList := by
  refine ⟨decode?_encode s, ?_, encode_ne_nil s, encode_eq_utf8_iff s⟩
  rw [decode?_encode, Option.map_some]

/-- Every field of a symbol with a constant and a name. -/
example :
    (⟨.constantKind, .string, .heirs, ⟨0xffffffffffffffff⟩, some (.str "\"\x01é"),
      some ⟨[⟨"A", ["B", "C"]⟩]⟩⟩ : Symbol).encode =
    Text.utf8 ("\x7b\"kind\":\"Constant\",\"assign_type\":\"String\",\"scope\":\"Protected\"," ++
      "\"mask\":18446744073709551615,\"value\":\x7b\"Str\":\"\\\"\\u0001é\"\x7d," ++
      "\"name\":\x7b\"segments\":[\x7b\"name\":\"A\",\"types\":[\"B\",\"C\"]\x7d]\x7d\x7d") := by
  decide +kernel

end Symbol
end ClassIndex
