/-
# Text made from bytes

Source bytes are shown to people as text. Valid UTF-8 is shown as it is; every maximal part of a
sequence that cannot be completed is shown as one replacement character:

| lead byte | second byte | further bytes |
| --- | --- | ---: |
| `00` … `7f` | none | 0 |
| `c2` … `df` | `80` … `bf` | 0 |
| `e0` | `a0` … `bf` | 1 |
| `e1` … `ec`, `ee`, `ef` | `80` … `bf` | 1 |
| `ed` | `80` … `9f` | 1 |
| `f0` | `90` … `bf` | 2 |
| `f1` … `f3` | `80` … `bf` | 2 |
| `f4` | `80` … `8f` | 2 |

No other byte leads a sequence, and every further byte lies in `80` … `bf`.
-/

namespace ClassIndex
namespace Text

/-- The UTF-8 bytes of a text. -/
def utf8 (s : String) : List UInt8 := s.toUTF8.data.toList

/-- The range of the second byte after a lead byte. -/
def secondRange (lead : UInt8) : UInt8 × UInt8 :=
  if lead == 0xe0 then (0xa0, 0xbf)
  else if lead == 0xed then (0x80, 0x9f)
  else if lead == 0xf0 then (0x90, 0xbf)
  else if lead == 0xf4 then (0x80, 0x8f)
  else (0x80, 0xbf)

/-- A second byte that may follow the lead byte. -/
def seconds (lead b : UInt8) : Bool := (secondRange lead).1 ≤ b && b ≤ (secondRange lead).2

/-- A byte that continues a sequence after its second byte. -/
def continues (b : UInt8) : Bool := 0x80 ≤ b && b ≤ 0xbf

/-- The six low bits of a continuation byte. -/
def low (b : UInt8) : Nat := b.toNat % 64

/-- The character shown for bytes that are not UTF-8. -/
def replacement : Char := '\ufffd'

/-- The character at the head of a byte string, if one is complete there, and the bytes after
it; else the bytes after the part that cannot be completed. -/
def decodeHead (a : UInt8) (s : List UInt8) : Option Char × List UInt8 :=
  if a < 0x80 then (some (Char.ofNat a.toNat), s)
  else match s with
    | [] => (none, [])
    | b :: t =>
      if a < 0xc2 || 0xf4 < a || !seconds a b then (none, b :: t)
      else if a < 0xe0 then (some (Char.ofNat (a.toNat % 32 * 64 + low b)), t)
      else match t with
        | [] => (none, [])
        | c :: u =>
          if !continues c then (none, c :: u)
          else if a < 0xf0 then
            (some (Char.ofNat ((a.toNat % 16 * 64 + low b) * 64 + low c)), u)
          else match u with
            | [] => (none, [])
            | d :: v =>
              if !continues d then (none, d :: v)
              else
                (some (Char.ofNat (((a.toNat % 8 * 64 + low b) * 64 + low c) * 64 + low d)), v)

theorem decodeHead_length (a : UInt8) (s : List UInt8) : (decodeHead a s).2.length ≤ s.length := by
  unfold decodeHead
  repeat' split
  all_goals simp <;> omega

/-- The characters of a byte string, each maximal undecodable part as one replacement. -/
def decode : List UInt8 → List Char
  | [] => []
  | a :: s => (decodeHead a s).1.getD replacement :: decode (decodeHead a s).2
termination_by s => s.length
decreasing_by exact Nat.lt_succ_of_le (decodeHead_length a s)

/-- The text that a byte string is shown as. -/
def lossy (bytes : List UInt8) : String := String.ofList (decode bytes)

/-- Strict reading: the text whose UTF-8 form the bytes are, if there is one. -/
def strict? (bytes : List UInt8) : Option String := String.fromUTF8? ⟨bytes.toArray⟩

end Text
end ClassIndex
