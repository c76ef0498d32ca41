/-
# Decimal numerals

Counts and codes are written in decimal without leading zeros, and read back digit by digit.
-/

namespace ClassIndex
namespace Text

/-- The character of a decimal digit. -/
def digitChar (n : Nat) : Char := Char.ofNat (48 + n)

/-- The value of a decimal digit. -/
def digitValue (c : Char) : Nat := c.toNat - 48

/-- A decimal digit. -/
def isDigit (c : Char) : Bool := '0' ≤ c && c ≤ '9'

/-- The decimal digits of a number, without leading zeros. -/
def decimal (n : Nat) : List Char :=
  if n < 10 then [digitChar n] else decimal (n / 10) ++ [digitChar (n % 10)]
termination_by n

/-- The value of a row of decimal digits. -/
def ofDecimal (cs : List Char) : Nat := cs.foldl (fun n c => 10 * n + digitValue c) 0

theorem digitValue_digitChar {n : Nat} (h : n < 10) : digitValue (digitChar n) = n := by
  decide +revert

theorem isDigit_digitChar {n : Nat} (h : n < 10) : isDigit (digitChar n) = true := by
  decide +revert

theorem ofDecimal_decimal (n : Nat) : ofDecimal (decimal n) = n := by
  induction n using Nat.strongRecOn with
  | _ n ih =>
    rw [decimal]
    split
    · rename_i h; simp [ofDecimal, digitValue_digitChar h]
    · rename_i h
      have := ih (n / 10) (by omega)
      rw [ofDecimal] at this ⊢
      rw [List.foldl_append, this]
      simp [digitValue_digitChar (Nat.mod_lt n (by omega))]
      omega

/-- The decimal digits of an integer, after a minus sign if it is negative. -/
def signed : Int → List Char
  | .ofNat n => decimal n
  | .negSucc n => '-' :: decimal (n + 1)

end Text
end ClassIndex
