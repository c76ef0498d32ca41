/-
# File trees

A run reads one fixed tree of files below the directory it works in. A path is walked piece by
piece from there, an absolute one from outside, where nothing is known but further directories.

| path | outcome |
| --- | --- |
| empty, or with a name that is not there | no such file or directory |
| a file, then a further piece or a slash | not a directory |
| a name of more than 255 bytes, a path of more than 4095 | file name too long |
| with a NUL character | refused before it is looked up |

A directory can be opened, but not read.
-/

import ClassIndex.Text.Blank
import ClassIndex.Text.Utf8

namespace ClassIndex

/-- Why a path leads to nothing. -/
inductive PathError where
  | missing
  | notFolder
  | tooLong
  | containsNul
deriving DecidableEq, Repr

/-- The wording of the system. -/
def PathError.message : PathError → String
  | .missing => "No such file or directory (os error 2)"
  | .notFolder => "Not a directory (os error 20)"
  | .tooLong => "File name too long (os error 36)"
  | .containsNul => "file name contained an unexpected NUL byte"

/-- Files and the folders besides the working directory, each under the names that lead to it,
the last name first. -/
structure FileTree where
  folders : List (List String)
  files : List (List String × List UInt8)

/-- Where a walk along a path has come to. -/
inductive Spot where
  /-- A folder below the working directory, by its names, the last one first. -/
  | folder (names : List String)
  | file (bytes : List UInt8)
  /-- A folder outside the working directory. -/
  | outside

namespace FileTree

/-- A working directory without files. -/
def empty : FileTree := ⟨[], []⟩

instance : Inhabited FileTree := ⟨empty⟩

/-- The pieces of a path between its slashes. -/
def pieces (path : String) : List String := (Text.splitAt '/' path.toList).map String.ofList

/-- The names that lead to a new file or folder, the last one first. -/
def namesOf (path : String) : List String :=
  ((pieces path).filter fun p => p ≠ "" && p ≠ ".").reverse

/-- The folder and all folders around it, but for the working directory. -/
def foldersAround : List String → List (List String)
  | [] => []
  | name :: rest => (name :: rest) :: foldersAround rest

/-- Makes a folder and the folders around it. -/
def addFolder (t : FileTree) (path : String) : FileTree :=
  { t with folders := foldersAround (namesOf path) ++ t.folders }

/-- Writes a file and makes the folders around it. -/
def addFile (t : FileTree) (path : String) (bytes : List UInt8) : FileTree :=
  ⟨foldersAround (namesOf path).tail ++ t.folders, (namesOf path, bytes) :: t.files⟩

/-- The bytes of a file. -/
def contents? (t : FileTree) (names : List String) : Option (List UInt8) := t.files.lookup names

/-- Goes one piece on. -/
def step (t : FileTree) (spot : Spot) (piece : String) : Except PathError Spot :=
  match spot with
  | .file _ => .error .notFolder
  | .folder names =>
    if piece = "" || piece = "." then .ok spot
    else if piece = ".." then
      .ok (match names with | [] => .outside | _ :: rest => .folder rest)
    else if 255 < piece.utf8ByteSize then .error .tooLong
    else match t.contents? (piece :: names) with
      | some bytes => .ok (.file bytes)
      | none =>
        if t.folders.contains (piece :: names) then .ok (.folder (piece :: names))
        else .error .missing
  | .outside =>
    if piece = "" || piece = "." || piece = ".." then .ok spot
    else if 255 < piece.utf8ByteSize then .error .tooLong
    else .error .missing

/-- Walks along the pieces of a path. -/
def walk (t : FileTree) : List String → Spot → Except PathError Spot
  | [], spot => .ok spot
  | piece :: rest, spot =>
    match t.step spot piece with
    | .ok spot => walk t rest spot
    | .error e => .error e

/-- Where the walk along a path starts. -/
def start (path : String) : Spot :=
  if path.toList.head? = some '/' then .outside else .folder []

/-- What a path leads to. -/
def lookup (t : FileTree) (path : String) : Except PathError Spot :=
  if path.toList.contains '\x00' then .error .containsNul
  else if path = "" then .error .missing
  else if 4095 < path.utf8ByteSize then .error .tooLong
  else t.walk (pieces path) (start path)

/-- A path leads to a file. -/
def isFile (t : FileTree) (path : String) : Bool :=
  match t.lookup path with
  | .ok (.file _) => true
  | _ => false

/-- The failure that meets whoever reads a directory. -/
def folderFailure : String := "Is a directory (os error 21)"

/-- What can be read through a path: bytes, and the failure that follows them. -/
def read (t : FileTree) (path : String) : Except PathError (List UInt8 × Option String) :=
  match t.lookup path with
  | .ok (.file bytes) => .ok (bytes, none)
  | .ok _ => .ok ([], some folderFailure)
  | .error e => .error e

/-- The size of the largest file. -/
def largest (t : FileTree) : Nat := t.files.foldr (fun f n => max f.2.length n) 0

theorem length_le_largest {t : FileTree} {names : List String} {bytes : List UInt8}
    (h : t.contents? names = some bytes) : bytes.length ≤ t.largest := by
  obtain ⟨folders, files⟩ := t
  unfold contents? at h
  unfold largest
  dsimp only at h ⊢
  induction files with
  | nil => simp at h
  | cons f fs ih =>
    obtain ⟨n, b⟩ := f
    rw [List.lookup_cons] at h
    simp only [List.foldr_cons]
    split at h
    · cases h; exact Nat.le_max_left _ _
    · exact Nat.le_trans (ih h) (Nat.le_max_right _ _)

theorem length_le_of_step {t : FileTree} {spot : Spot} {piece : String} {bytes : List UInt8}
    (h : t.step spot piece = .ok (.file bytes)) : bytes.length ≤ t.largest := by
  unfold step at h
  split at h
  · cases h
  · split at h
    · cases h
    · split at h
      · split at h <;> cases h
      · split at h
        · cases h
        · split at h
          · rename_i hb; cases h; exact length_le_largest hb
          · split at h <;> cases h
  · repeat' split at h
    all_goals cases h

theorem length_le_of_walk {t : FileTree} {ps : List String} {spot : Spot} {bytes : List UInt8}
    (hs : ∀ b, spot = .file b → b.length ≤ t.largest) (h : t.walk ps spot = .ok (.file bytes)) :
    bytes.length ≤ t.largest := by
  induction ps generalizing spot with
  | nil => cases h; exact hs bytes rfl
  | cons p ps ih =>
    unfold walk at h
    split at h
    · rename_i next hn
      exact ih (fun b hb => length_le_of_step (hb ▸ hn)) h
    · cases h

/-- **No path leads to more bytes than the largest file has.** -/
theorem length_le_of_read {t : FileTree} {path : String} {bytes : List UInt8}
    {failure? : Option String} (h : t.read path = .ok (bytes, failure?)) :
    bytes.length ≤ t.largest := by
  unfold read at h
  split at h
  · rename_i b hb
    cases h
    unfold lookup at hb
    repeat' split at hb
    all_goals try cases hb
    refine length_le_of_walk (fun b h => ?_) hb
    unfold start at h
    split at h <;> cases h
  · cases h; exact Nat.zero_le _
  · cases h

end FileTree
end ClassIndex
