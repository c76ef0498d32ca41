/-
# Strings

A string stands between two quotes of one style on one line. After a comma it goes on in a
further segment of the same style, with blanks and comments on either side of the comma. Single
quotes hold their bytes as they are; between double quotes a backslash opens an escape:

| escape | denotes |
| --- | --- |
| `\x` or `\X`, up to 8 hexadecimal digits | the number's bytes, highest first, as few as possible |
| `\d` or `\D`, a sign, up to 10 decimal digits | the same, negative numbers in two's complement |
| `\0`, up to 3 octal digits | the number's lowest byte |
| `\n`, `\r`, `\t`, `\b`, `\f`, `\v` | line feed, return, tab, backspace, form feed, vertical tab |
| backslash, any other byte | that byte |

A numeric escape without digits denotes nothing and is warned of.
-/

import ClassIndex.Cursor.Trivia

namespace ClassIndex

namespace Radix

/-- The largest number of digits of an escape. -/
def limit : Radix → Nat
  | .octal => 3
  | .decimal => 10
  | .hex => 8

/-- A digit of the radix. -/
def isDigit : Radix → UInt8 → Bool
  | .octal => Byte.isOctalDigit
  | .decimal => Byte.isDigit
  | .hex => Byte.isHexDigit

/-- The number of the radix. -/
def base : Radix → Nat
  | .octal => 8
  | .decimal => 10
  | .hex => 16

/-- The value of a digit. -/
def digitValue (b : UInt8) : Nat :=
  if b ≤ 0x39 then b.toNat - 0x30 else if b ≤ 0x46 then b.toNat - 0x37 else b.toNat - 0x57

/-- The value of a row of digits. -/
def value (r : Radix) (digits : List UInt8) : Nat :=
  digits.foldl (fun n b => r.base * n + digitValue b) 0

/-- The bytes that a numeric escape denotes. -/
def denoted (r : Radix) (negative : Bool) (digits : List UInt8) : List UInt8 :=
  match r with
  | .octal => [UInt8.ofNat (r.value digits)]
  | .decimal =>
    let n : Int := r.value digits
    Buffer.pack (Int32.ofInt (if negative then -n else n)).toUInt32
  | .hex => Buffer.pack (UInt32.ofNat (r.value digits))

end Radix

namespace Cursor

/-- Up to so many digits. -/
def digits (r : Radix) : Nat → Cursor → List UInt8 × Cursor
  | 0, c => ([], c)
  | n + 1, c =>
    match c.next with
    | (some b, d) =>
      if r.isDigit b then
        let (ds, e) := digits r n d
        (b :: ds, e)
      else ([], d.giveBack (some b))
    | (none, d) => ([], d)

theorem remaining_digits (r : Radix) (n : Nat) (c : Cursor) :
    (digits r n c).2.remaining ≤ c.remaining := by
  fun_induction digits r n c with
  | case1 => exact Nat.le_refl _
  | case2 n c b d h hb ds e he ih =>
    have := remaining_next_some h; rw [he] at ih; simp only at ih ⊢; omega
  | case3 n c b d h hb => have := remaining_giveBack_next h; simp only; omega
  | case4 n c d h => have := remaining_next_none h; simp only; omega

/-- What a message shows for what was read: the byte escaped, or the end of the source. -/
def shown : Option UInt8 → String
  | some b => Text.escapeByte b
  | none => "end of file"

/-- The sign of a decimal escape; the answer tells whether it is a minus. -/
def leadingSign (c : Cursor) : Bool × Cursor :=
  match c.next with
  | (some b, d) =>
    if b = 0x2b then (false, d) else if b = 0x2d then (true, d) else (false, d.giveBack (some b))
  | (none, d) => (false, d)

theorem remaining_leadingSign (c : Cursor) : c.leadingSign.2.remaining ≤ c.remaining := by
  unfold leadingSign
  split
  · rename_i b d h
    have := remaining_next_some h
    split
    · simp only; omega
    · split
      · simp only; omega
      · simp only [remaining_giveBack_some]; omega
  · rename_i d h
    have := remaining_next_none h
    simp only; omega

/-- A numeric escape after its letter. -/
def numericEscape (r : Radix) (c : Cursor) : Cursor :=
  let (negative, d) := if r = .decimal then c.leadingSign else (false, c)
  match digits r r.limit d with
  | ([], e) => e.report (.emptyEscape r (shown e.next.1))
  | (ds, e) => e.keepAll (r.denoted negative ds)

theorem remaining_numericEscape (r : Radix) (c : Cursor) :
    (c.numericEscape r).remaining ≤ c.remaining := by
  unfold numericEscape
  have hs : (if r = .decimal then c.leadingSign else (false, c)).2.remaining ≤ c.remaining := by
    split
    · exact remaining_leadingSign c
    · exact Nat.le_refl _
  generalize (if r = .decimal then c.leadingSign else (false, c)) = p at hs
  obtain ⟨negative, d⟩ := p
  dsimp only at hs ⊢
  have hd := remaining_digits r r.limit d
  split
  · rename_i e he
    rw [he] at hd; simp only [remaining_report] at hd ⊢; omega
  · rename_i ds e _ he
    rw [he] at hd; simp only [remaining_keepAll] at hd ⊢; omega

/-- The byte that a letter after a backslash denotes; any other byte denotes itself. -/
def escapeLetter (b : UInt8) : UInt8 :=
  if b = Byte.of 'n' then 0x0a
  else if b = Byte.of 'r' then 0x0d
  else if b = Byte.of 't' then 0x09
  else if b = Byte.of 'b' then 0x08
  else if b = Byte.of 'f' then 0x0c
  else if b = Byte.of 'v' then 0x0b
  else b

/-- An escape after its backslash. The answer tells whether there was a byte to escape. -/
def escape (c : Cursor) : Bool × Cursor :=
  match c.next with
  | (some b, d) =>
    (true,
      if b = Byte.of 'x' || b = Byte.of 'X' then d.numericEscape .hex
      else if b = Byte.of 'd' || b = Byte.of 'D' then d.numericEscape .decimal
      else if b = Byte.of '0' then d.numericEscape .octal
      else d.keep (escapeLetter b))
  | (none, d) => (false, d)

theorem remaining_escape (c : Cursor) : c.escape.2.remaining ≤ c.remaining := by
  unfold escape
  split
  · rename_i b d h
    have := remaining_next_some h
    dsimp only
    split
    · have := remaining_numericEscape .hex d; omega
    · split
      · have := remaining_numericEscape .decimal d; omega
      · split
        · have := remaining_numericEscape .octal d; omega
        · simp only [remaining_keep]; omega
  · rename_i d h
    have := remaining_next_none h
    simp only; omega

/-- Looks behind a closing quote: a comma and a further opening quote are taken, and the string
goes on; a comma alone is taken too, and is a fault. -/
def goesOn (quote : UInt8) (c : Cursor) : Bool × Cursor :=
  match c.skipTrivia.next with
  | (some b, d) =>
    if b = 0x2c then
      match d.skipTrivia.next with
      | (some b', e) =>
        if b' = quote then (true, e) else (false, (e.giveBack (some b')).report .badContinuation)
      | (none, e) => (false, e.report .badContinuation)
    else (false, d.giveBack (some b))
  | (none, d) => (false, d)

theorem remaining_goesOn (quote : UInt8) (c : Cursor) :
    (c.goesOn quote).2.remaining ≤ c.remaining := by
  have := remaining_skipTrivia c
  unfold goesOn
  split
  · rename_i b d h
    have := remaining_next_some h
    have := remaining_skipTrivia d
    split
    · split
      · rename_i b' e k
        have := remaining_next_some k
        split
        · simp only; omega
        · simp only [remaining_report, remaining_giveBack_some]; omega
      · rename_i e k
        have := remaining_next_none k
        simp only [remaining_report]; omega
    · simp only [remaining_giveBack_some]; omega
  · rename_i d h
    have := remaining_next_none h
    simp only; omega

/-- A string after its opening quote. -/
def quoted (quote : UInt8) (c : Cursor) : Token.Kind × Cursor :=
  match _h : c.next with
  | (some b, d) =>
    if b = 0x0a then (.error, (d.forget.giveBack (some b)).report .lineBreakInString)
    else if b = quote then
      match _k : d.goesOn quote with
      | (true, e) => quoted quote e
      | (false, e) => (.quoted, e)
    else if b = 0x5c && quote = 0x22 then
      match _k : d.escape with
      | (true, e) => quoted quote e
      | (false, e) => (.error, e.report .unterminatedString)
    else quoted quote (d.keep b)
  | (none, d) => (.error, d.report .unterminatedString)
termination_by c.remaining
decreasing_by
  · have := remaining_next_some _h
    have k := remaining_goesOn quote d
    rw [_k] at k; simp only at k; omega
  · have := remaining_next_some _h
    have k := remaining_escape d
    rw [_k] at k; simp only at k; omega
  · have := remaining_next_some _h
    simp only [remaining_keep]; omega

theorem quoted_eq (quote : UInt8) (c : Cursor) :
    c.quoted quote = match c.next with
      | (some b, d) =>
        if b = 0x0a then (.error, (d.forget.giveBack (some b)).report .lineBreakInString)
        else if b = quote then
          match d.goesOn quote with
          | (true, e) => quoted quote e
          | (false, e) => (.quoted, e)
        else if b = 0x5c && quote = 0x22 then
          match d.escape with
          | (true, e) => quoted quote e
          | (false, e) => (.error, e.report .unterminatedString)
        else quoted quote (d.keep b)
      | (none, d) => (.error, d.report .unterminatedString) := by
  rw [quoted]
  split <;> rename_i h <;> simp only [h]
  congr 2
  · split <;> rename_i k <;> simp only [k]
  · congr
    split <;> rename_i k <;> simp only [k]

theorem remaining_quoted (quote : UInt8) (c : Cursor) :
    (c.quoted quote).2.remaining ≤ c.remaining := by
  fun_induction quoted quote c with
  | case1 c d h =>
    have := remaining_next_some h
    simp only [remaining_report, remaining_giveBack_some, remaining_forget]; omega
  | case2 c d e k h _ ih =>
    have := remaining_next_some h
    have k' := remaining_goesOn quote d
    rw [k] at k'; simp only at k'; omega
  | case3 c d e k h =>
    have := remaining_next_some h
    have k' := remaining_goesOn quote d
    rw [k] at k'; simp only at k' ⊢; omega
  | case4 c b d h _ _ _ e k ih =>
    have := remaining_next_some h
    have k' := remaining_escape d
    rw [k] at k'; simp only at k'; omega
  | case5 c b d h _ _ _ e k =>
    have := remaining_next_some h
    have k' := remaining_escape d
    rw [k] at k'; simp only [remaining_report] at k' ⊢; omega
  | case6 c b d h _ _ _ ih =>
    have := remaining_next_some h
    simp only [remaining_keep] at ih; omega
  | case7 c d h =>
    have := remaining_next_none h
    simp only [remaining_report]; omega

end Cursor
end ClassIndex
