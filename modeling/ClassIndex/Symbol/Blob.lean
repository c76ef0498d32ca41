/-
# Stored symbols

The table stores a symbol as the bytes of its JSON text. A constant is an object with one field
that names its form; a floating-point number is written as the number of its bit pattern.
-/

import ClassIndex.Symbol.Basic
import ClassIndex.Text.Utf8

namespace ClassIndex
namespace Symbol

/-- A constant as data. -/
def Value.json : Value → Json
  | .int n => .obj [("Int", .num n.toInt)]
  | .uint n => .obj [("UInt", .nat n.toNat)]
  | .float bits => .obj [("Float", .nat bits.toNat)]
  | .str s => .obj [("Str", .str s)]

/-- A word of 64 bits from a number in its range. -/
def word? (n : Int) : Option UInt64 :=
  if 0 ≤ n && n < UInt64.size then some (UInt64.ofNat n.toNat) else none

/-- A signed word of 64 bits from a number in its range. -/
def signedWord? (n : Int) : Option Int64 :=
  if Int64.minValue.toInt ≤ n && n ≤ Int64.maxValue.toInt then some (Int64.ofInt n) else none

/-- The constant that a value of the data stands for. -/
def Value.ofJson? : Json → Option Value
  | .obj [("Int", .num n)] => (signedWord? n).map .int
  | .obj [("UInt", .num n)] => (word? n).map .uint
  | .obj [("Float", .num n)] => (word? n).map .float
  | .obj [("Str", .str s)] => some (.str s)
  | _ => none

/-- The text that a value of the data is. -/
def textOf? : Json → Option String
  | .str s => some s
  | _ => none

/-- The name step that a value of the data stands for. -/
def segmentOf? : Json → Option Segment
  | .obj [("name", .str name), ("types", .arr types)] => (types.mapM textOf?).map (⟨name, ·⟩)
  | _ => none

/-- The decorated name that a value of the data stands for. -/
def decorationOf? : Json → Option Decoration
  | .obj [("segments", .arr segments)] => (segments.mapM segmentOf?).map (⟨·⟩)
  | _ => none

/-- What a value of the data stands for, where it may be absent. -/
def optional? {α : Type} (read : Json → Option α) : Json → Option (Option α)
  | .null => some none
  | j => (read j).map some

/-- A symbol as data. -/
def json (s : Symbol) : Json :=
  .obj [("kind", .str s.kind.tag), ("assign_type", .str s.assigned.tag),
    ("scope", .str s.scope.tag), ("mask", .nat s.mask.bits.toNat),
    ("value", (s.value.map Value.json).getD .null),
    ("name", (s.name.map Decoration.json).getD .null)]

/-- The symbol that a value of the data stands for. -/
def ofJson? : Json → Option Symbol
  | .obj [("kind", .str kind), ("assign_type", .str assigned), ("scope", .str scope),
      ("mask", .num mask), ("value", value), ("name", name)] => do
    let kind ← Kind.ofTag? kind
    let assigned ← Assigned.ofTag? assigned
    let scope ← Scope.ofTag? scope
    let bits ← word? mask
    let value ← optional? Value.ofJson? value
    let name ← optional? decorationOf? name
    return ⟨kind, assigned, scope, ⟨bits⟩, value, name⟩
  | _ => none

/-- The bytes that are stored for a symbol. -/
def encode (s : Symbol) : List UInt8 := Text.utf8 s.json.text

/-- The symbol that bytes are stored for. -/
def decode? (bytes : List UInt8) : Option Symbol := do
  let text ← Text.strict? bytes
  let j ← Json.parse? text
  ofJson? j

end Symbol
end ClassIndex
