/-
# Symbols

A symbol is what the table knows of a declared name: its kind, the type it is declared with, who
may see it, a mask of capabilities, perhaps a constant, and the name once it is declared.

| bit | capability |
| ---: | --- |
| 0 | root |
| 1, 2, 3 | class, its methods, its variables |
| 4, 5, 6 | method, its parameters, its variables |
| 7 | variable |
| 17, 18, 19 | import, holds a constant, has children |
-/

import ClassIndex.Decoration
import ClassIndex.Token.Kind

namespace ClassIndex

/-- A set of capabilities, one bit each. -/
structure Mask where
  bits : UInt64
deriving DecidableEq, Inhabited, Repr

namespace Mask

/-- No capability. -/
def none : Mask := ⟨0⟩

/-- The capability of one bit. -/
def bit (n : UInt64) : Mask := ⟨1 <<< n⟩

def root : Mask := bit 0
def ofClass : Mask := bit 1
def classMethod : Mask := bit 2
def classVariable : Mask := bit 3
def method : Mask := bit 4
def methodParameter : Mask := bit 5
def methodVariable : Mask := bit 6
def ofVariable : Mask := bit 7
def imported : Mask := bit 17
def constant : Mask := bit 18
def parent : Mask := bit 19

/-- Both sets together. -/
def union (m n : Mask) : Mask := ⟨m.bits ||| n.bits⟩

/-- The first set without the second. -/
def without (m n : Mask) : Mask := ⟨m.bits &&& ~~~n.bits⟩

/-- The first set holds all of the second. -/
def contains (m n : Mask) : Bool := m.bits &&& n.bits == n.bits

/-- No capability is set. -/
def isEmpty (m : Mask) : Bool := m.bits == 0

end Mask

namespace Symbol

/-- What a name is declared as; an anonymous one is a block without a name. -/
inductive Kind where
  | classKind
  | methodKind
  | variableKind
  | constantKind
  | importKind
  | anonymous
deriving DecidableEq, Repr

namespace Kind

/-- Every kind. -/
def all : List Kind :=
  [.classKind, .methodKind, .variableKind, .constantKind, .importKind, .anonymous]

/-- The word for a kind in listings. -/
def text : Kind → String
  | .classKind => "class"
  | .methodKind => "method"
  | .variableKind => "variable"
  | .constantKind => "constant"
  | .importKind => "import"
  | .anonymous => "anonymous"

/-- The tag of a kind in data. -/
def tag : Kind → String
  | .classKind => "Class"
  | .methodKind => "Method"
  | .variableKind => "Variable"
  | .constantKind => "Constant"
  | .importKind => "Import"
  | .anonymous => "Anonymous"

/-- The kind that a tag names. -/
def ofTag? (s : String) : Option Kind := all.find? (·.tag == s)

/-- The capabilities that every symbol of a kind has. -/
def mask : Kind → Mask
  | .classKind => .ofClass
  | .methodKind => .method
  | .variableKind => .ofVariable
  | .constantKind => Mask.ofVariable.union .constant
  | .importKind => .imported
  | .anonymous => .none

end Kind

/-- The type that a name is declared with. -/
inductive Assigned where
  | int
  | uint
  | float
  | bool
  | string
  | dict
  | map
  | list
  | classType
  | inherited
deriving DecidableEq, Repr

namespace Assigned

/-- Every type. -/
def all : List Assigned :=
  [.int, .uint, .float, .bool, .string, .dict, .map, .list, .classType, .inherited]

/-- The word for a type in messages. -/
def text : Assigned → String
  | .int => "int"
  | .uint => "uint"
  | .float => "float"
  | .bool => "bool"
  | .string => "string"
  | .dict => "dict"
  | .map => "map"
  | .list => "list"
  | .classType => "class"
  | .inherited => "inherit"

/-- The tag of a type in data. -/
def tag : Assigned → String
  | .int => "Int"
  | .uint => "UInt"
  | .float => "Float"
  | .bool => "Bool"
  | .string => "String"
  | .dict => "Dict"
  | .map => "Map"
  | .list => "List"
  | .classType => "Class"
  | .inherited => "Inherit"

/-- The type that a tag names. -/
def ofTag? (s : String) : Option Assigned := all.find? (·.tag == s)

/-- The type that a reserved word names. -/
def ofToken? : Token.Kind → Option Assigned
  | .intWord => some .int
  | .uintWord => some .uint
  | .floatWord => some .float
  | .boolWord => some .bool
  | .stringWord => some .string
  | .dictWord => some .dict
  | .mapWord => some .map
  | .listWord => some .list
  | _ => none

end Assigned

/-- Who may see a member. -/
inductive Scope where
  | everyone
  | owner
  | heirs
deriving DecidableEq, Inhabited, Repr

namespace Scope

/-- Every scope. -/
def all : List Scope := [.everyone, .owner, .heirs]

/-- The tag of a scope in data. -/
def tag : Scope → String
  | .everyone => "Public"
  | .owner => "Private"
  | .heirs => "Protected"

/-- The scope that a tag names. -/
def ofTag? (s : String) : Option Scope := all.find? (·.tag == s)

/-- The scope that a reserved word names. -/
def ofToken? : Token.Kind → Option Scope
  | .publicWord => some .everyone
  | .privateWord => some .owner
  | .protectedWord => some .heirs
  | _ => none

end Scope

/-- A constant. A floating-point number is held as its bit pattern. -/
inductive Value where
  | int (n : Int64)
  | uint (n : UInt64)
  | float (bits : UInt64)
  | str (s : String)
deriving DecidableEq, Repr

/-- A constant may stand under a type; truth values are the numbers zero and one. -/
def Assigned.accepts : Assigned → Value → Bool
  | .int, .int _ => true
  | .uint, .uint _ => true
  | .bool, .uint n => n == 0 || n == 1
  | .float, .float _ => true
  | .string, .str _ => true
  | _, _ => false

end Symbol

/-- What is known of a declared name. -/
structure Symbol where
  kind : Symbol.Kind
  assigned : Symbol.Assigned
  scope : Symbol.Scope
  mask : Mask
  value : Option Symbol.Value
  name : Option Decoration
deriving DecidableEq, Repr

namespace Symbol

/-- A symbol of a kind and type, seen by everyone, without constant and name. -/
def new (kind : Kind) (assigned : Assigned) : Symbol :=
  ⟨kind, assigned, .everyone, kind.mask, none, none⟩

/-- A class. -/
def newClass : Symbol := new .classKind .classType

/-- The symbol with more capabilities. -/
def withMask (s : Symbol) (m : Mask) : Symbol := { s with mask := s.mask.union m }

/-- The symbol with a constant, which is a capability too. -/
def withValue (s : Symbol) (v : Value) : Symbol :=
  { s with mask := s.mask.union .constant, value := some v }

/-- The constant, if there is one, may stand under the type. -/
def valueFits (s : Symbol) : Bool :=
  match s.value with
  | some v => s.assigned.accepts v
  | none => true

end Symbol
end ClassIndex
