/-
# Compact JSON text

The form of compact JSON is said here without a writer: a value is written as a text if its parts
are written as the parts of that text (`Written`). Every value is written as one text only, which
is the one that is rendered (`written_iff`).

| value | text |
| --- | --- |
| number | its decimal digits, after a minus sign if it is negative |
| string | its characters between quotes, escaped where they have to be |
| array | its items between brackets, with a comma between two of them |
| object | its fields between braces, likewise, each with a colon behind its name |
-/

import ClassIndex.Json
import Mathlib.Data.List.Forall2
import Mathlib.Tactic.SplitIfs

namespace ClassIndex

/-- Rows that correspond by a function are rows of its values. -/
theorem forall₂_iff_eq_map {α β : Type} {R : α → β → Prop} {f : α → β}
    (h : ∀ a b, R a b ↔ b = f a) (as : List α) (bs : List β) :
    List.Forall₂ R as bs ↔ bs = as.map f := by
  induction as generalizing bs with
  | nil => simp
  | cons a as ih => cases bs <;> simp [h, ih]

/-- Behind the first of some rows, the separator stands before each. -/
theorem intercalate_cons {α : Type} (sep : α) (x : List α) (xs : List (List α)) :
    [sep].intercalate (x :: xs) = x ++ xs.flatMap (sep :: ·) := by
  induction xs generalizing x with
  | nil => simp
  | cons y xs ih =>
    rw [List.intercalate_cons_cons, ih, List.flatMap_cons, List.append_assoc]
    rfl

namespace Text

/-- A number is written as the digits that numerals have. -/
theorem decimal_eq_toDigits (n : Nat) : decimal n = Nat.toDigits 10 n := by
  induction n using Nat.strongRecOn with
  | ind n ih =>
    have hdigit : ∀ m < 10, digitChar m = Nat.digitChar m := by decide
    rw [decimal, Nat.toDigits_eq_if (by decide)]
    split
    · rename_i hn
      rw [hdigit n hn]
    · rw [ih (n / 10) (by omega), hdigit (n % 10) (Nat.mod_lt n (by decide))]

theorem signed_eq_toString (n : Int) : signed n = (toString n).toList := by
  cases n with
  | ofNat n =>
    show decimal n = (Nat.repr n).toList
    rw [decimal_eq_toDigits, Nat.toList_repr]
  | negSucc n =>
    show '-' :: decimal (n + 1) = ("-" ++ Nat.repr (n + 1)).toList
    rw [decimal_eq_toDigits, String.toList_append, Nat.toList_repr]
    rfl

theorem hexDigit_eq_digitChar {n : Nat} (h : n < 16) : hexDigit n = Nat.digitChar n := by
  decide +revert

end Text

namespace Json

/-- How a character is written inside a string. -/
inductive WrittenChar : Char → List Char → Prop where
  | quote : WrittenChar '"' ['\\', '"']
  | backslash : WrittenChar '\\' ['\\', '\\']
  | backspace : WrittenChar '\x08' ['\\', 'b']
  | tab : WrittenChar '\t' ['\\', 't']
  | lineFeed : WrittenChar '\n' ['\\', 'n']
  | formFeed : WrittenChar '\x0c' ['\\', 'f']
  | carriageReturn : WrittenChar '\r' ['\\', 'r']
  | control {c : Char} (hlow : c.toNat < 0x20)
    (hother : c ∉ ['\x08', '\t', '\n', '\x0c', '\r']) :
    WrittenChar c
      ['\\', 'u', '0', '0', Nat.digitChar (c.toNat / 16), Nat.digitChar (c.toNat % 16)]
  | plain {c : Char} (hhigh : 0x20 ≤ c.toNat) (hquote : c ≠ '"') (hback : c ≠ '\\') :
    WrittenChar c [c]

/-- How a string is written. -/
inductive WrittenString : String → List Char → Prop where
  | mk {s : String} {pieces : List (List Char)} (h : List.Forall₂ WrittenChar s.toList pieces) :
    WrittenString s ('"' :: (pieces.flatten ++ ['"']))

/-- How a value is written. -/
inductive Written : Json → List Char → Prop where
  | null : Written .null "null".toList
  | true : Written (.bool true) "true".toList
  | false : Written (.bool false) "false".toList
  | num (n : Int) : Written (.num n) (toString n).toList
  | str {s : String} {cs : List Char} (h : WrittenString s cs) : Written (.str s) cs
  | arr {items : List Json} {texts : List (List Char)} (h : List.Forall₂ Written items texts) :
    Written (.arr items) ('[' :: ([','].intercalate texts ++ [']']))
  | obj {fields : List (String × Json)} {names texts : List (List Char)}
    (hnames : List.Forall₂ WrittenString (fields.map Prod.fst) names)
    (h : List.Forall₂ Written (fields.map Prod.snd) texts) :
    Written (.obj fields) ('\x7b' :: ([','].intercalate
      (List.zipWith (fun name text => name ++ ':' :: text) names texts) ++ ['\x7d']))

/-! ## What is rendered -/

theorem writtenChar_iff (c : Char) (cs : List Char) : WrittenChar c cs ↔ cs = escapeChar c := by
  constructor
  · intro h
    cases h with
    | control hlow hother =>
      have hquote : c ≠ '"' := by rintro rfl; exact absurd hlow (by decide)
      have hback : c ≠ '\\' := by rintro rfl; exact absurd hlow (by decide)
      simp only [List.mem_cons, List.not_mem_nil, or_false, not_or] at hother
      simp [escapeChar, hquote, hback, hother, hlow,
        Text.hexDigit_eq_digitChar (show c.toNat / 16 < 16 by omega),
        Text.hexDigit_eq_digitChar (show c.toNat % 16 < 16 by omega)]
    | plain hhigh hquote hback =>
      have hother : ∀ d : Char, d.toNat < 0x20 → c ≠ d := by
        rintro d hd rfl
        omega
      simp [escapeChar, hquote, hback, Nat.not_lt.2 hhigh, hother]
    | _ => decide
  · rintro rfl
    unfold escapeChar
    split_ifs with hself hb ht hn hf hr hlow
    · rcases (by simpa using hself : c = '"' ∨ c = '\\') with rfl | rfl
      · exact .quote
      · exact .backslash
    · exact hb ▸ .backspace
    · exact ht ▸ .tab
    · exact hn ▸ .lineFeed
    · exact hf ▸ .formFeed
    · exact hr ▸ .carriageReturn
    · rw [Text.hexDigit_eq_digitChar (by omega), Text.hexDigit_eq_digitChar (by omega)]
      exact .control hlow (by simp [hb, ht, hn, hf, hr])
    · simp only [Bool.or_eq_true, decide_eq_true_eq, not_or] at hself
      exact .plain (Nat.not_lt.1 hlow) hself.1 hself.2

theorem writtenString_iff (s : String) (cs : List Char) : WrittenString s cs ↔ cs = quote s := by
  constructor
  · rintro ⟨h⟩
    rw [(forall₂_iff_eq_map writtenChar_iff _ _).1 h, quote, List.flatMap_def]
  · rintro rfl
    rw [quote, List.flatMap_def]
    exact ⟨(forall₂_iff_eq_map writtenChar_iff _ _).2 rfl⟩

/-- Items are rendered with a comma between two of them. -/
theorem renderItems_eq (items : List Json) :
    renderItems items = [','].intercalate (items.map render) ++ [']'] := by
  have hmore : ∀ xs, renderMoreItems xs = (xs.map render).flatMap (',' :: ·) ++ [']'] := by
    intro xs
    induction xs with
    | nil => rfl
    | cons x xs ih => simp [renderMoreItems, ih]
  cases items with
  | nil => rfl
  | cons x xs => rw [renderItems, hmore, List.map_cons, intercalate_cons, List.append_assoc]

/-- Fields are rendered with a comma between two of them. -/
theorem renderFields_eq (fields : List (String × Json)) :
    renderFields fields =
      [','].intercalate (fields.map fun p => quote p.1 ++ ':' :: p.2.render) ++ ['\x7d'] := by
  have hmore : ∀ xs : List (String × Json), renderMoreFields xs =
      (xs.map fun p => quote p.1 ++ ':' :: p.2.render).flatMap (',' :: ·) ++ ['\x7d'] := by
    intro xs
    induction xs with
    | nil => rfl
    | cons x xs ih => simp [renderMoreFields, ih]
  cases fields with
  | nil => rfl
  | cons x xs =>
    rw [renderFields, hmore, List.map_cons, intercalate_cons]
    simp

mutual

/-- **A value is written as what is rendered for it,** and as nothing else. -/
theorem written_iff : ∀ (j : Json) (cs : List Char), Written j cs ↔ cs = j.render
  | .null, cs => by
    constructor
    · rintro ⟨⟩; rfl
    · rintro rfl; exact .null
  | .bool true, cs => by
    constructor
    · rintro ⟨⟩; rfl
    · rintro rfl; exact .true
  | .bool false, cs => by
    constructor
    · rintro ⟨⟩; rfl
    · rintro rfl; exact .false
  | .num n, cs => by
    rw [render, Text.signed_eq_toString]
    constructor
    · rintro ⟨⟩; rfl
    · rintro rfl; exact .num n
  | .str s, cs => by
    rw [render, ← writtenString_iff]
    exact ⟨fun h => by cases h; assumption, .str⟩
  | .arr items, cs => by
    rw [render, renderItems_eq]
    constructor
    · rintro ⟨⟩
      rename_i texts h
      rw [(written_items_iff items texts).1 h]
    · rintro rfl
      exact .arr ((written_items_iff items _).2 rfl)
  | .obj fields, cs => by
    have hzip : List.zipWith (fun name text => name ++ ':' :: text)
        ((fields.map Prod.fst).map quote) (fields.map fun p => p.2.render) =
          fields.map fun p => quote p.1 ++ ':' :: p.2.render := by
      simp [List.zipWith_map_left, List.zipWith_map_right]
    rw [render, renderFields_eq, ← hzip]
    constructor
    · rintro ⟨⟩
      rename_i names texts hnames h
      rw [(forall₂_iff_eq_map writtenString_iff _ _).1 hnames, (written_fields_iff fields texts).1 h]
    · rintro rfl
      exact .obj ((forall₂_iff_eq_map writtenString_iff _ _).2 rfl)
        ((written_fields_iff fields _).2 rfl)

theorem written_items_iff : ∀ (items : List Json) (texts : List (List Char)),
    List.Forall₂ Written items texts ↔ texts = items.map render
  | [], texts => by simp
  | x :: xs, [] => by simp
  | x :: xs, t :: ts => by simp [written_iff x t, written_items_iff xs ts]

theorem written_fields_iff : ∀ (fields : List (String × Json)) (texts : List (List Char)),
    List.Forall₂ Written (fields.map Prod.snd) texts ↔ texts = fields.map fun p => p.2.render
  | [], texts => by simp
  | (k, x) :: xs, [] => by simp
  | (k, x) :: xs, t :: ts => by simp [written_iff x t, written_fields_iff xs ts]

end

end Json
end ClassIndex
