/-
# Compact JSON is read back

The reader takes every compact text for the value it was written for (`parse?_text`): each reader
takes exactly the characters that its writer puts down, whatever follows them. Only a number needs
to know what follows, namely no further digit.

| written | read by |
| --- | --- |
| the characters of a string, escaped | `readChars` |
| the digits of a number, after its sign | `readNumber?` |
| items, fields | `readItems?`, `readFields?` |
| a value | `read?` |
-/

import ClassIndex.Json

namespace ClassIndex

namespace Text

theorem hexValue?_hexDigit {n : Nat} (h : n < 16) : Json.hexValue? (hexDigit n) = some n := by
  decide +revert

theorem decimal_ne_nil (n : Nat) : decimal n ≠ [] := by
  rw [decimal]
  split <;> simp

theorem isDigit_of_mem_decimal {n : Nat} {c : Char} (h : c ∈ decimal n) : isDigit c = true := by
  induction n using Nat.strongRecOn with
  | ind n ih =>
    rw [decimal] at h
    split at h
    · rename_i hn
      obtain rfl := List.mem_singleton.1 h
      exact isDigit_digitChar hn
    · rcases List.mem_append.1 h with h | h
      · exact ih (n / 10) (by omega) h
      · obtain rfl := List.mem_singleton.1 h
        exact isDigit_digitChar (Nat.mod_lt n (by omega))

end Text

namespace Json

/-- Characters before which a number ends. -/
def NoDigit (rest : List Char) : Prop := ∀ c ∈ rest.head?, Text.isDigit c = false

/-! ## Strings -/

/-- A character is read back from its escaped form. -/
theorem readChars_escapeChar {cs rest tail : List Char} (c : Char)
    (h : readChars tail = some (cs, rest)) :
    readChars (escapeChar c ++ tail) = some (c :: cs, rest) := by
  unfold escapeChar
  split
  · rename_i hc
    rcases (by simpa using hc : c = '"' ∨ c = '\\') with rfl | rfl <;>
      simp [readChars, unescape?, h]
  rename_i hquote
  repeat' split
  · rename_i hc; subst hc; simp [readChars, unescape?, h]
  · rename_i hc; subst hc; simp [readChars, unescape?, h]
  · rename_i hc; subst hc; simp [readChars, unescape?, h]
  · rename_i hc; subst hc; simp [readChars, unescape?, h]
  · rename_i hc; subst hc; simp [readChars, unescape?, h]
  · rename_i hlow
    have hsplit : 16 * (c.toNat / 16) + c.toNat % 16 = c.toNat := by omega
    simp [readChars, Text.hexValue?_hexDigit (show c.toNat / 16 < 16 by omega),
      Text.hexValue?_hexDigit (show c.toNat % 16 < 16 by omega), h, hsplit]
  · rename_i hlow
    simp only [Bool.or_eq_true, decide_eq_true_eq, not_or] at hquote
    simp [readChars, hquote, hlow, h]

/-- **The characters of a string are read back** up to the closing quote. -/
theorem readChars_escape (cs rest : List Char) :
    readChars (cs.flatMap escapeChar ++ '"' :: rest) = some (cs, rest) := by
  induction cs with
  | nil => simp [readChars]
  | cons c cs ih =>
    rw [List.flatMap_cons, List.append_assoc]
    exact readChars_escapeChar c ih

/-- A string with its quotes is read back. -/
theorem readString?_quote (s : String) (rest : List Char) :
    readString? (quote s ++ rest) = some (s, rest) := by
  simp [quote, readString?, readChars_escape]

/-! ## Numbers -/

theorem takeWhile_decimal (n : Nat) {rest : List Char} (h : NoDigit rest) :
    (Text.decimal n ++ rest).takeWhile Text.isDigit = Text.decimal n ∧
      (Text.decimal n ++ rest).dropWhile Text.isDigit = rest := by
  have hall : ∀ c ∈ Text.decimal n, Text.isDigit c = true :=
    fun c hc => Text.isDigit_of_mem_decimal hc
  rw [List.takeWhile_append_of_pos hall, List.dropWhile_append_of_pos hall]
  cases rest with
  | nil => simp
  | cons c rest =>
    have hc : Text.isDigit c = false := h c rfl
    simp [hc]

/-- **A number is read back** where no digit follows it. -/
theorem readNumber?_signed (n : Int) {rest : List Char} (h : NoDigit rest) :
    readNumber? (Text.signed n ++ rest) = some (.num n, rest) := by
  cases n with
  | ofNat n =>
    obtain ⟨htake, hdrop⟩ := takeWhile_decimal n h
    obtain ⟨c, cs, hcs⟩ := List.exists_cons_of_ne_nil (Text.decimal_ne_nil n)
    have hc : Text.isDigit c = true := Text.isDigit_of_mem_decimal (n := n) (by simp [hcs])
    have hminus : ∀ r, Text.decimal n ++ rest = '-' :: r → False := by
      intro r hr
      rw [hcs] at hr
      obtain rfl : c = '-' := (List.cons.inj hr).1
      exact absurd hc (by decide)
    rw [Text.signed, readNumber?.eq_2 _ hminus]
    simp only [htake, hdrop]
    simp only [hcs]
    rw [← hcs, Text.ofDecimal_decimal]
    rfl
  | negSucc n =>
    obtain ⟨htake, hdrop⟩ := takeWhile_decimal (n + 1) h
    obtain ⟨c, cs, hcs⟩ := List.exists_cons_of_ne_nil (Text.decimal_ne_nil (n + 1))
    rw [Text.signed, List.cons_append, readNumber?]
    simp only [htake, hdrop]
    simp only [hcs]
    rw [← hcs, Text.ofDecimal_decimal]
    rfl

/-! ## Values -/

theorem decimal_head (n : Nat) : ∃ c cs, Text.decimal n = c :: cs ∧ Text.isDigit c = true := by
  obtain ⟨c, cs, hcs⟩ := List.exists_cons_of_ne_nil (Text.decimal_ne_nil n)
  exact ⟨c, cs, hcs, Text.isDigit_of_mem_decimal (n := n) (by simp [hcs])⟩

theorem signed_head (n : Int) :
    ∃ c cs, Text.signed n = c :: cs ∧ (c = '-' ∨ Text.isDigit c = true) := by
  cases n with
  | ofNat n =>
    obtain ⟨c, cs, hcs, hc⟩ := decimal_head n
    exact ⟨c, cs, hcs, .inr hc⟩
  | negSucc n => exact ⟨'-', _, rfl, .inl rfl⟩

/-- No value begins like the end of a row of items. -/
theorem render_head (j : Json) : ∃ c cs, j.render = c :: cs ∧ c ≠ ']' := by
  cases j with
  | null => exact ⟨'n', _, rfl, by decide⟩
  | bool b => cases b <;> exact ⟨_, _, rfl, by decide⟩
  | num n =>
    obtain ⟨c, cs, hcs, hc⟩ := signed_head n
    refine ⟨c, cs, hcs, ?_⟩
    rintro rfl
    exact absurd hc (by decide)
  | str s => exact ⟨'"', _, rfl, by decide⟩
  | arr items => exact ⟨'[', _, rfl, by decide⟩
  | obj fields => exact ⟨'\x7b', _, rfl, by decide⟩

theorem read?_of_number {c : Char} {cs : List Char} (n : Nat)
    (hc : c = '-' ∨ Text.isDigit c = true) :
    read? (n + 1) (c :: cs) = readNumber? (c :: cs) := by
  have hne : ∀ d : Char, d ≠ '-' → Text.isDigit d = false → c ≠ d := by
    rintro d hd hdigit rfl
    rcases hc with hc | hc
    · exact hd hc
    · rw [hdigit] at hc
      cases hc
  have h₁ := hne 'n' (by decide) (by decide)
  have h₂ := hne 't' (by decide) (by decide)
  have h₃ := hne 'f' (by decide) (by decide)
  have h₄ := hne '"' (by decide) (by decide)
  have h₅ := hne '[' (by decide) (by decide)
  have h₆ := hne '\x7b' (by decide) (by decide)
  simp [read?, h₁, h₂, h₃, h₄, h₅, h₆]

theorem noDigit_cons {c : Char} (h : Text.isDigit c = false) (rest : List Char) :
    NoDigit (c :: rest) := by
  rintro d hd
  obtain rfl : c = d := by simpa using hd
  exact h

mutual

/-- **A value is read back** where no digit follows it, if the nesting allowed is as large as its
text. -/
theorem read?_render : ∀ (j : Json) {n : Nat} {r : List Char}, j.render.length < n →
    NoDigit r → read? n (j.render ++ r) = some (j, r)
  | .null, n + 1, r, _, _ => by simp [render, read?]
  | .bool true, n + 1, r, _, _ => by simp [render, read?]
  | .bool false, n + 1, r, _, _ => by simp [render, read?]
  | .num m, n + 1, r, _, hr => by
    have hread := readNumber?_signed m hr
    obtain ⟨c, cs, hcs, hc⟩ := signed_head m
    rw [hcs, List.cons_append] at hread
    rw [render, hcs, List.cons_append, read?_of_number n hc, hread]
  | .str s, n + 1, r, _, _ => by simp [render, quote, read?, readChars_escape]
  | .arr [], n + 1, r, _, _ => by simp [render, renderItems, read?]
  | .arr (x :: xs), n + 1, r, h, _ => by
    simp only [render, renderItems, List.length_cons] at h
    have hitems := readItems?_render x xs (r := r) (Nat.lt_of_succ_lt_succ h)
    obtain ⟨c, cs, hc, hne⟩ := render_head x
    rw [hc, List.cons_append] at hitems
    simp [render, renderItems, hc, read?, hne, hitems]
  | .obj [], n + 1, r, _, _ => by simp [render, renderFields, read?]
  | .obj ((k, x) :: xs), n + 1, r, h, _ => by
    simp only [render, renderFields, List.length_cons] at h
    have hfields := readFields?_render k x xs (r := r) (Nat.lt_of_succ_lt_succ h)
    obtain ⟨cs, hk⟩ : ∃ cs, quote k = '"' :: cs := ⟨_, rfl⟩
    rw [hk, List.cons_append] at hfields
    simp [render, renderFields, hk, read?, hfields]

theorem readItems?_render : ∀ (x : Json) (xs : List Json) {n : Nat} {r : List Char},
    (x.render ++ renderMoreItems xs).length < n →
    readItems? n (x.render ++ (renderMoreItems xs ++ r)) = some (x :: xs, r)
  | x, [], n + 1, r, h => by
    simp only [renderMoreItems, List.length_append, List.length_singleton] at h
    have hx := read?_render x (n := n) (r := ']' :: r) (by omega) (noDigit_cons rfl r)
    simp [renderMoreItems, readItems?, hx]
  | x, y :: ys, n + 1, r, h => by
    simp only [renderMoreItems, List.length_append, List.length_cons] at h
    have hx := read?_render x (n := n) (r := ',' :: (y.render ++ (renderMoreItems ys ++ r)))
      (by omega) (noDigit_cons rfl _)
    have hy := readItems?_render y ys (n := n) (r := r)
      (by rw [List.length_append]; omega)
    simp [renderMoreItems, readItems?, hx, hy]

theorem readFields?_render : ∀ (k : String) (x : Json) (xs : List (String × Json)) {n : Nat}
    {r : List Char}, (quote k ++ ':' :: (x.render ++ renderMoreFields xs)).length < n →
    readFields? n (quote k ++ ':' :: (x.render ++ (renderMoreFields xs ++ r))) =
      some ((k, x) :: xs, r)
  | k, x, [], n + 1, r, h => by
    simp only [renderMoreFields, List.length_append, List.length_cons] at h
    have hx := read?_render x (n := n) (r := '\x7d' :: r) (by omega) (noDigit_cons rfl r)
    simp [renderMoreFields, readFields?, readString?_quote, hx]
  | k, x, (k', y) :: ys, n + 1, r, h => by
    simp only [renderMoreFields, List.length_append, List.length_cons] at h
    have hx := read?_render x (n := n)
      (r := ',' :: (quote k' ++ ':' :: (y.render ++ (renderMoreFields ys ++ r))))
      (by omega) (noDigit_cons rfl _)
    have hy := readFields?_render k' y ys (n := n) (r := r)
      (by simp only [List.length_append, List.length_cons]; omega)
    simp [renderMoreFields, readFields?, readString?_quote, hx, hy]

end

/-- **Every compact text is read back** as the value it was written for. -/
theorem parse?_text (j : Json) : parse? j.text = some j := by
  have h := read?_render j (n := j.render.length + 1) (r := []) (Nat.lt_succ_self _)
    (fun c hc => by cases hc)
  rw [List.append_nil] at h
  rw [parse?, text, String.length_ofList, String.toList_ofList, h]

end Json
end ClassIndex
