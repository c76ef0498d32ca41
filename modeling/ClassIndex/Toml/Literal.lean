/-
# TOML numbers, dates and truth values

What is no string, array or table is one run of letters, digits and the signs `+ - _ . :`. A run
is a truth value, a whole number in the range of 64 bits, a number with a point or an exponent
that is not too large for 64 bits, or a date, a time or both.
-/

import ClassIndex.Text.Decimal
import ClassIndex.Toml.Value

namespace ClassIndex
namespace Toml

/-- A character of a run. -/
def inRun (c : Char) : Bool :=
  c.isAlphanum || c == '+' || c == '-' || c == '_' || c == '.' || c == ':'

/-- The value of a digit in any radix up to sixteen. -/
def digit? (radix : Nat) (c : Char) : Option Nat :=
  let n :=
    if '0' ≤ c && c ≤ '9' then c.toNat - 48
    else if 'a' ≤ c && c ≤ 'f' then c.toNat - 87
    else if 'A' ≤ c && c ≤ 'F' then c.toNat - 55
    else 99
  if n < radix then some n else none

/-- Digits with single underscores between them; `fresh` says that a digit has to follow. -/
def digits? (radix : Nat) (fresh : Bool) : List Char → Option (List Nat)
  | [] => if fresh then none else some []
  | '_' :: rest => if fresh then none else digits? radix true rest
  | c :: rest =>
    match digit? radix c with
    | some n => (digits? radix false rest).map (n :: ·)
    | none => none

/-- The number of a row of digits. -/
def ofDigits (radix : Nat) (ds : List Nat) : Nat := ds.foldl (fun n d => radix * n + d) 0

/-- A whole number without sign: no zero leads. -/
def unsigned? (cs : List Char) : Option Nat :=
  match cs with
  | ['0'] => some 0
  | '0' :: _ => none
  | _ => (digits? 10 true cs).map (ofDigits 10)

/-- The sign of a number, true for a minus, and what follows it. -/
def signOf (cs : List Char) : Bool × List Char :=
  match cs with
  | '-' :: rest => (true, rest)
  | '+' :: rest => (false, rest)
  | _ => (false, cs)

/-- A number in the range of 64 bits. -/
def inRange? (n : Int) : Option Toml :=
  if Int64.minValue.toInt ≤ n && n ≤ Int64.maxValue.toInt then some (.integer n) else none

/-- A whole number, in one of four radices. -/
def integer? (cs : List Char) : Option Toml :=
  match cs with
  | '0' :: 'x' :: rest => (digits? 16 true rest).bind fun ds => inRange? (ofDigits 16 ds)
  | '0' :: 'o' :: rest => (digits? 8 true rest).bind fun ds => inRange? (ofDigits 8 ds)
  | '0' :: 'b' :: rest => (digits? 2 true rest).bind fun ds => inRange? (ofDigits 2 ds)
  | _ =>
    let (negative, rest) := signOf cs
    (unsigned? rest).bind fun n => inRange? (if negative then -(n : Int) else n)

/-- The least number that is rounded to infinity in 64 bits. -/
def infinityBound : Nat := Nat.pow 2 1024 - Nat.pow 2 970

/-- A number `m · 10 ^ e` is rounded to infinity. -/
def roundsToInfinity (m : Nat) (e : Int) : Bool :=
  if m = 0 then false
  else
    let size : Int := (Text.decimal m).length + e
    if 400 < size then true
    else if size < 300 then false
    else if 0 ≤ e then infinityBound ≤ m * Nat.pow 10 e.toNat
    else infinityBound * Nat.pow 10 (-e).toNat ≤ m

/-- The exponent of a number after its letter. -/
def exponent? (cs : List Char) : Option Int :=
  let (negative, rest) := signOf cs
  (digits? 10 true rest).map fun ds =>
    let n : Int := ofDigits 10 ds
    if negative then -n else n

/-- A character before the exponent of a number. -/
def beforeExponent (c : Char) : Bool := c != 'e' && c != 'E'

/-- The exponent that a number ends with, zero if there is none. -/
def exponentPart? (cs : List Char) : Option Int :=
  match cs.dropWhile beforeExponent with
  | [] => some 0
  | _ :: rest => exponent? rest

/-- A number with a point or an exponent. Too large a number is refused if it is positive. -/
def float? (cs : List Char) : Option Toml :=
  let (negative, rest) := signOf cs
  if rest = ['i', 'n', 'f'] || rest = ['n', 'a', 'n'] then some .float
  else
    let mantissa := rest.takeWhile beforeExponent
    let checked (m : Nat) (e : Int) : Option Toml :=
      if !negative && roundsToInfinity m e then none else some .float
    match mantissa.dropWhile (· != '.') with
    | [] =>
      if mantissa.length = rest.length then none
      else (unsigned? mantissa).bind fun m => (exponentPart? rest).bind fun e => checked m e
    | _ :: fraction =>
      (unsigned? (mantissa.takeWhile (· != '.'))).bind fun w =>
        (digits? 10 true fraction).bind fun ds =>
          (exponentPart? rest).bind fun e =>
            checked (w * Nat.pow 10 ds.length + ofDigits 10 ds) (e - ds.length)

/-- Two digits. -/
def twoDigits? (a b : Char) : Option Nat :=
  match digit? 10 a, digit? 10 b with
  | some m, some n => some (10 * m + n)
  | _, _ => none

/-- The number of days of a month. -/
def daysIn (year month : Nat) : Nat :=
  if month = 2 then
    if year % 4 = 0 && (year % 100 != 0 || year % 400 = 0) then 29 else 28
  else if month = 4 || month = 6 || month = 9 || month = 11 then 30
  else 31

/-- A date of ten characters, and what follows it. -/
def datePart? : List Char → Option (List Char)
  | a :: b :: c :: d :: '-' :: e :: f :: '-' :: g :: h :: rest =>
    match twoDigits? a b, twoDigits? c d, twoDigits? e f, twoDigits? g h with
    | some century, some year, some month, some day =>
      if 1 ≤ month && month ≤ 12 && 1 ≤ day && day ≤ daysIn (100 * century + year) month then
        some rest
      else none
    | _, _, _, _ => none
  | _ => none

/-- The fraction of a second, if there is one, and what follows it. -/
def secondFraction? : List Char → Option (List Char)
  | '.' :: rest =>
    if (rest.head?.map Text.isDigit).getD false then some (rest.dropWhile Text.isDigit) else none
  | rest => some rest

/-- A time of eight characters and perhaps a fraction, and what follows it. -/
def timePart? : List Char → Option (List Char)
  | a :: b :: ':' :: c :: d :: ':' :: e :: f :: rest =>
    match twoDigits? a b, twoDigits? c d, twoDigits? e f with
    | some hour, some minute, some second =>
      if hour ≤ 23 && minute ≤ 59 && second ≤ 60 then secondFraction? rest else none
    | _, _, _ => none
  | _ => none

/-- An offset from universal time that ends a text. -/
def isOffset : List Char → Bool
  | ['Z'] | ['z'] => true
  | [sign, a, b, ':', c, d] =>
    (sign == '+' || sign == '-') &&
      match twoDigits? a b, twoDigits? c d with
      | some hour, some minute => hour ≤ 23 && minute ≤ 59
      | _, _ => false
  | _ => false

/-- A time, perhaps with an offset. -/
def isZonedTime (cs : List Char) : Bool :=
  match timePart? cs with
  | some [] => true
  | some rest => isOffset rest
  | none => false

/-- A date alone. -/
def isDate (cs : List Char) : Bool := datePart? cs == some []

/-- A date, a time, or a date and a time. -/
def isDateOrTime (cs : List Char) : Bool :=
  match datePart? cs with
  | some [] => true
  | some (c :: rest) => (c == 'T' || c == 't') && isZonedTime rest
  | none => timePart? cs == some []

/-- The value of a run. -/
def run? (cs : List Char) : Option Toml :=
  if cs = ['t', 'r', 'u', 'e'] then some (.boolean true)
  else if cs = ['f', 'a', 'l', 's', 'e'] then some (.boolean false)
  else if isDateOrTime cs then some .date
  else (float? cs).or (integer? cs)

end Toml
end ClassIndex
