/-
# Finding imports

An import names a source without its extension. The source is the first file of that name in the
directories searched: those configured first, then those of the include list.

| code | refusal |
| --- | --- |
| `E005` | no directory has such a file |
| `E012` | the name is empty or has a NUL character |
-/

import ClassIndex.Diagnostic.Event
import ClassIndex.FileTree
import ClassIndex.Text.Escape

namespace ClassIndex

/-- Why an import leads to no source. -/
inductive ImportError where
  | notFound (name : String) (searched : List String)
  | invalidName (shown : String)
deriving DecidableEq, Repr

namespace ImportError

/-- The code under which a refusal is reported. -/
def code : ImportError → String
  | .notFound .. => "E005"
  | .invalidName _ => "E012"

/-- The wording of a refusal. -/
def message : ImportError → String
  | .notFound name searched =>
    "cannot find import \"" ++ name ++ "\" (searched: "
      ++ (if searched.isEmpty then "no directories" else String.intercalate ", " searched) ++ ")"
  | .invalidName shown => "invalid import name: \"" ++ shown ++ "\""

end ImportError

/-- A source found for an import. -/
structure FoundImport where
  path : String
  /-- The import was named with the extension, which it need not be. -/
  redundant : Bool
deriving DecidableEq, Repr

/-- The directories searched: those configured, and those of the include list. -/
structure SearchPath where
  search : List String
  included : List String
deriving DecidableEq, Inhabited, Repr

namespace SearchPath

/-- The directories in the order in which they are searched. -/
def directories (p : SearchPath) : List String := p.search ++ p.included

/-- The directories of a list between colons; blanks around them do not count, nor do empty
ones. -/
def split (raw : String) : List String :=
  ((Text.splitAt ':' raw.toList).map fun part => Text.trim (String.ofList part)).filter (· ≠ "")

/-- The extension of sources. -/
def extension : String := ".g"

/-- The file that an import name stands for, and whether the name has the extension already. -/
def fileName (name : String) : String × Bool :=
  if extension.toList.isSuffixOf name.toList then (name, true) else (name ++ extension, false)

/-- The path of a file in a directory; an absolute path stays as it is. -/
def join (dir file : String) : String :=
  if file.toList.head? = some '/' then file
  else match dir.toList.getLast? with
    | none => file
    | some c => if c = '/' then dir ++ file else dir ++ "/" ++ file

/-- The first path that leads to a file, or all of them. -/
def firstFile (isFile : String → Bool) : List String → Except (List String) String
  | [] => .error []
  | path :: rest =>
    if isFile path then .ok path
    else match firstFile isFile rest with
      | .ok found => .ok found
      | .error searched => .error (path :: searched)

/-- The source that an import names, where these paths lead to files. -/
def find (p : SearchPath) (isFile : String → Bool) (name : String) :
    Except ImportError FoundImport :=
  if name = "" || name.toList.contains '\x00' then .error (.invalidName (Text.escape name))
  else
    let (file, redundant) := fileName name
    match firstFile isFile (p.directories.map fun dir => join dir file) with
    | .ok path => .ok ⟨path, redundant⟩
    | .error searched => .error (.notFound name searched)

/-- The source that an import names in a tree of files. -/
def resolve (p : SearchPath) (t : FileTree) (name : String) : Except ImportError FoundImport :=
  p.find t.isFile name

end SearchPath
end ClassIndex
