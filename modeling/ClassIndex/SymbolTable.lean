/-
# The symbol table

Declarations go in under the name that is being built up step by step: the current decoration.
Every refusal is recorded in the journal as an error without a place, with the name as people
read it.

| refusal | code |
| --- | --- |
| the name is taken | `E040` |
| the name is unknown | `E041` |
| the stored bytes are no symbol | `E042` |
| the constant does not fit the type | `E043` |
-/

import ClassIndex.Buffer
import ClassIndex.Diagnostic.Journal
import ClassIndex.Symbol.Blob
import ClassIndex.Table

namespace ClassIndex

/-- What the symbol table refuses, and about which name as people read it. -/
inductive SymbolError where
  | alreadyExists (name : String)
  | notFound (name : String)
  | valueMismatch (name type : String)
  | unreadable (name cause : String)
deriving DecidableEq, Repr

namespace SymbolError

/-- The code under which a refusal is reported. -/
def code : SymbolError → String
  | .alreadyExists _ => "E040"
  | .notFound _ => "E041"
  | .unreadable .. => "E042"
  | .valueMismatch .. => "E043"

/-- The wording of a refusal. -/
def message : SymbolError → String
  | .alreadyExists name => "name already exists: " ++ name
  | .notFound name => "name not found: " ++ name
  | .unreadable name cause => "symbol " ++ name ++ " could not be encoded: " ++ cause
  | .valueMismatch name type => "value for " ++ name ++ " does not match its " ++ type ++ " type"

/-- Adds a refusal to a journal. -/
def record (e : SymbolError) (j : Diagnostic.Journal) : Diagnostic.Journal :=
  j.unplaced e.code e.message

end SymbolError

/-- The stored symbols and the name being built up. -/
structure SymbolTable where
  table : Table
  decoration : Buffer

namespace SymbolTable

open Diagnostic (Journal Event)

/-- A table without symbols. -/
def empty : SymbolTable := ⟨.empty, .empty⟩

instance : Inhabited SymbolTable := ⟨empty⟩

/-- Starts a new name. -/
def beginDecoration (t : SymbolTable) : SymbolTable := { t with decoration := t.decoration.clear }

/-- Adds a component to the current name, which is marked before its text. -/
def addComponent (t : SymbolTable) (marker : Char) (text : String) : SymbolTable :=
  { t with decoration := (t.decoration.push marker.toNat.toUInt8).appendText text }

/-- Adds a name step to the current name. -/
def addName (t : SymbolTable) (name : String) : SymbolTable :=
  t.addComponent Decoration.nameMarker name

/-- Adds a type parameter to the current name. -/
def addType (t : SymbolTable) (type : String) : SymbolTable :=
  t.addComponent Decoration.typeMarker type

/-- Cuts the current name back to its first step. -/
def truncateToClass (t : SymbolTable) : SymbolTable :=
  { t with decoration :=
      t.decoration.truncate (Decoration.classPrefixLength t.decoration.toList) }

/-- The key of the current name. -/
def currentKey (t : SymbolTable) : String := t.decoration.text

/-- The number of symbols. -/
def size (t : SymbolTable) : Nat := t.table.size

/-- A key is declared. -/
def contains (t : SymbolTable) (key : String) : Bool := t.table.contains key

/-- The declared keys in byte order. -/
def names (t : SymbolTable) : List String := t.table.keys.mergeSort (fun a b => ! decide (b < a))

/-- A refusal of a constant that does not fit its type. -/
def checkValue (key : String) (s : Symbol) : Except SymbolError Unit :=
  if s.valueFits then .ok ()
  else .error (.valueMismatch (Decoration.readable key) s.assigned.text)

/-- A symbol's bytes under a key: it is given the name that the key stands for. -/
def blob (key : String) (s : Symbol) : List UInt8 :=
  { s with name := some (Decoration.parse key) : Symbol }.encode

/-- The refusal that the symbol table makes of one of its store, where only a taken key is
expected. -/
def storeError (key : String) : TableError → SymbolError
  | .alreadyExists _ => .alreadyExists (Decoration.readable key)
  | e => .unreadable (Decoration.readable key) e.message

/-- The note about a new declaration. -/
def declaredNote (key : String) (s : Symbol) : Event :=
  (Event.trace "Symbol declared").withFacts
    [("name", Decoration.readable key), ("kind", s.kind.text)]

/-- A call's outcome, the table and the journal after it. -/
abbrev Step (α : Type) := Except SymbolError α × SymbolTable × Journal

/-- Ends a call with a refusal, which is recorded. -/
def refuse {α : Type} (t : SymbolTable) (j : Journal) (e : SymbolError) : Step α :=
  (.error e, t, e.record j)

/-- Stores a symbol under the current name. -/
def declare (t : SymbolTable) (j : Journal) (s : Symbol) : Step Unit :=
  let key := t.currentKey
  match checkValue key s with
  | .error e => t.refuse j e
  | .ok () =>
    match t.table.insert key (blob key s) with
    | (.ok (), table) => (.ok (), { t with table }, j.note (declaredNote key s))
    | (.error e, table) => { t with table }.refuse j (storeError key e)

/-- The refusal of a key, or the symbol stored under it. -/
def lookup (t : SymbolTable) (key : String) : Except SymbolError Symbol :=
  let size := t.table.entrySize key
  if size = 0 then .error (.notFound (Decoration.readable key))
  else match t.table.find key (List.replicate size 0) with
    | .error _ => .error (.notFound (Decoration.readable key))
    | .ok (_, bytes) =>
      match Symbol.decode? bytes with
      | some s => .ok s
      | none => .error (.unreadable (Decoration.readable key) "the stored bytes are no symbol")

/-- The symbol stored under a key. -/
def resolve (t : SymbolTable) (j : Journal) (key : String) : Except SymbolError Symbol × Journal :=
  match t.lookup key with
  | .ok s => (.ok s, j)
  | .error e => (.error e, e.record j)

/-- Stores another symbol under a declared key. -/
def update (t : SymbolTable) (j : Journal) (key : String) (s : Symbol) : Step Unit :=
  if t.contains key then
    match checkValue key s with
    | .error e => t.refuse j e
    | .ok () =>
      match t.table.replace key (blob key s) with
      | (.ok (), table) => (.ok (), { t with table }, j)
      | (.error e, table) => { t with table }.refuse j (storeError key e)
  else t.refuse j (.notFound (Decoration.readable key))

end SymbolTable
end ClassIndex
