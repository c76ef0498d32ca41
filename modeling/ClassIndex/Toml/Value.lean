/-
# TOML values and tables

A table is built up by statements: a header opens a table or adds one to an array of tables, and
an assignment sets a key of the table opened last. Dotted keys and headers make the tables on
their way. A table keeps how it came about, which decides what may still be added to it:

| form | came about by | a header may open it | a dotted key may go through it |
| --- | --- | --- | --- |
| stated | its header | no | no |
| implied | a header further in | yes | yes, but not end in it |
| dotted | a dotted key | no | yes |
| inline | braces | no | no |

Every header may go through a table that is not inline. Numbers with a point and dates are read
only to see that they are well-formed.
-/

namespace ClassIndex
namespace Toml

/-- How a table came about. -/
inductive Form where
  | stated
  | implied
  | dotted
  | inlined
deriving DecidableEq, Repr

end Toml

/-- A TOML value. An array of tables holds its newest table first. -/
inductive Toml where
  | string (s : String)
  | integer (n : Int)
  | float
  | boolean (b : Bool)
  | date
  | array (items : List Toml)
  | table (form : Toml.Form) (entries : List (String × Toml))
  | tables (elements : List (List (String × Toml)))
deriving Inhabited

namespace Toml

/-- The keys of a table with their values. -/
abbrev Entries := List (String × Toml)

/-- Sets the value of a key. -/
def setEntry (es : Entries) (key : String) (value : Toml) : Entries :=
  match es with
  | [] => [(key, value)]
  | (k, v) :: rest => if k = key then (key, value) :: rest else (k, v) :: setEntry rest key value

/-- A path may go through a table of a form; `dotted` says that the path is a dotted key. -/
def Form.passable (dotted : Bool) : Form → Bool
  | .stated => !dotted
  | .implied | .dotted => true
  | .inlined => false

/-- The form of the tables that a path makes. -/
def Form.made (dotted : Bool) : Form := if dotted then .dotted else .implied

/-- Changes the table at the end of a path, making the tables on the way. The change is told the
form of the table. -/
def descend (dotted : Bool) (change : Form → Entries → Option Entries) :
    List String → Form → Entries → Option Entries
  | [], form, es => change form es
  | key :: path, _, es =>
    match es.lookup key with
    | none =>
      (descend dotted change path (.made dotted) []).map fun sub =>
        es ++ [(key, .table (.made dotted) sub)]
    | some (.table form sub) =>
      if form.passable dotted then
        (descend dotted change path form sub).map fun sub => setEntry es key (.table form sub)
      else none
    | some (.tables (newest :: older)) =>
      (descend dotted change path .stated newest).map fun newest =>
        setEntry es key (.tables (newest :: older))
    | some _ => none

/-- Sets a key at the end of a dotted path. The table there must be the one where the path begins
or have come about by dotted keys, and the key must be new. -/
def assign (path : List String) (key : String) (value : Toml) (es : Entries) : Option Entries :=
  descend true (fun form es =>
    if (form == .dotted) == path.isEmpty then none
    else match es.lookup key with
      | none => some (es ++ [(key, value)])
      | some _ => none) path .stated es

/-- Opens the table that a header names. -/
def openTable (path : List String) (key : String) (es : Entries) : Option Entries :=
  descend false (fun _ es =>
    match es.lookup key with
    | none => some (es ++ [(key, .table .stated [])])
    | some (.table .implied sub) => some (setEntry es key (.table .stated sub))
    | some _ => none) path .stated es

/-- Adds a table to the array of tables that a header names. -/
def addTable (path : List String) (key : String) (es : Entries) : Option Entries :=
  descend false (fun _ es =>
    match es.lookup key with
    | none => some (es ++ [(key, .tables [[]])])
    | some (.tables elements) => some (setEntry es key (.tables ([] :: elements)))
    | some _ => none) path .stated es

/-- A statement of a document; a path is split before its last key. -/
inductive Statement where
  | header (path : List String) (key : String)
  | arrayHeader (path : List String) (key : String)
  | assignment (path : List String) (key : String) (value : Toml)

/-- A document so far: its entries, and the path of the table opened last. -/
structure Document where
  entries : Entries
  opened : List String

/-- The document after one more statement. -/
def Document.add (d : Document) : Statement → Option Document
  | .header path key => (openTable path key d.entries).map fun es => ⟨es, path ++ [key]⟩
  | .arrayHeader path key => (addTable path key d.entries).map fun es => ⟨es, path ++ [key]⟩
  | .assignment path key value =>
    (descend false (fun _ es => assign path key value es) d.opened .stated d.entries).map fun es =>
      { d with entries := es }

/-- The entries that a row of statements makes. -/
def ofStatements? (statements : List Statement) : Option Entries :=
  (statements.foldlM Document.add ⟨[], []⟩).map (·.entries)

/-- The table that the assignments between braces make. -/
def ofAssignments? (pairs : List (List String × String × Toml)) : Option Toml :=
  (pairs.foldlM (fun es (path, key, value) => assign path key value es) []).map (.table .inlined)

end Toml
end ClassIndex
