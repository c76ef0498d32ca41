/-
# The first file that an import names

The directories give one path each to try for an import (`tried`). A search stops at the first of
them that is a file, and lists them all if none is (`firstFile_eq`). A name and the name with the
extension give the same paths, so they lead to the same file or to none (`find_first`):

| name | file tried | found as |
| --- | --- | --- |
| without the extension | the name with the extension | not redundant |
| with the extension | the name | redundant |

The empty name alone is no import, although the bare extension is one.
-/

import ClassIndex.SearchPath

namespace ClassIndex
namespace SearchPath

variable {p : SearchPath} {isFile : String → Bool} {name : String} {found : FoundImport}
  {e : ImportError}

/-- The paths that are tried for an import. -/
def tried (p : SearchPath) (name : String) : List String :=
  p.directories.map fun dir => join dir (fileName name).1

/-- **The first of the paths that is a file is found, else all of them are listed.** -/
theorem firstFile_eq (isFile : String → Bool) (paths : List String) :
    firstFile isFile paths = match paths.find? isFile with
      | some path => .ok path
      | none => .error paths := by
  induction paths with
  | nil => rfl
  | cons path paths ih =>
    rw [firstFile, ih, List.find?_cons]
    cases isFile path with
    | true => rfl
    | false => cases paths.find? isFile <;> rfl

theorem find_eq (p : SearchPath) (isFile : String → Bool) (name : String) :
    p.find isFile name =
      if name = "" || name.toList.contains '\x00' then .error (.invalidName (Text.escape name))
      else match (p.tried name).find? isFile with
        | some path => .ok ⟨path, (fileName name).2⟩
        | none => .error (.notFound name (p.tried name)) := by
  have hfirst : firstFile isFile (p.directories.map fun dir => join dir (fileName name).1)
      = match (p.tried name).find? isFile with
        | some path => .ok path
        | none => .error (p.tried name) := firstFile_eq isFile (p.tried name)
  unfold find
  dsimp only
  rw [hfirst]
  cases (p.tried name).find? isFile <;> rfl

/-- What is found is the first file among the paths tried. -/
theorem find?_of_find (h : p.find isFile name = .ok found) :
    (p.tried name).find? isFile = some found.path ∧ found.redundant = (fileName name).2 := by
  rw [find_eq] at h
  split at h
  · cases h
  · split at h
    · rename_i hfirst
      cases h
      exact ⟨hfirst, rfl⟩
    · cases h

/-- All paths that were tried are named, or the name is malformed. -/
theorem error_of_find (h : p.find isFile name = .error e) :
    e = .invalidName (Text.escape name) ∨ e = .notFound name (p.tried name) := by
  rw [find_eq] at h
  split at h
  · cases h
    exact .inl rfl
  · split at h
    · cases h
    · cases h
      exact .inr rfl

/-- The first file there is lies in a directory, and those before it have none. -/
theorem exists_dir_of_first {path : String} (h : (p.tried name).find? isFile = some path) :
    ∃ before dir after, p.directories = before ++ dir :: after ∧
      (∀ d ∈ before, isFile (join d (fileName name).1) = false) ∧
      isFile path = true ∧ path = join dir (fileName name).1 := by
  obtain ⟨hfile, front, back, htried, hfront⟩ := List.find?_eq_some_iff_append.1 h
  obtain ⟨before, rest, hdirs, rfl, hrest⟩ := List.map_eq_append_iff.1 htried
  obtain ⟨dir, after, rfl, rfl, rfl⟩ := List.map_eq_cons_iff.1 hrest
  refine ⟨before, dir, after, hdirs, fun d hd => ?_, hfile, rfl⟩
  simpa using hfront _ (List.mem_map_of_mem hd)

theorem isFile_eq_false_of_first (h : (p.tried name).find? isFile = none) :
    ∀ d ∈ p.directories, isFile (join d (fileName name).1) = false := fun d hd => by
  simpa using List.find?_eq_none.1 h _ (List.mem_map_of_mem hd)

/-! ## The extension -/

theorem fileName_of_suffix (h : extension.toList <:+ name.toList) : fileName name = (name, true) :=
  if_pos (List.isSuffixOf_iff_suffix.2 h)

theorem fileName_of_not_suffix (h : ¬ extension.toList <:+ name.toList) :
    fileName name = (name ++ extension, false) :=
  if_neg (mt List.isSuffixOf_iff_suffix.1 h)

theorem suffix_append_extension (name : String) :
    extension.toList <:+ (name ++ extension).toList := by
  rw [String.toList_append]
  exact List.suffix_append _ _

/-- The same paths are tried for a name with the extension and without. -/
theorem tried_append_extension (p : SearchPath) (h : ¬ extension.toList <:+ name.toList) :
    p.tried (name ++ extension) = p.tried name := by
  rw [tried, fileName_of_suffix (suffix_append_extension name), tried, fileName_of_not_suffix h]

/-- **An import leads to the first file there is, named with the extension or without.** Whichever
paths are files, an import leads to its file in the first directory that has it, those configured
before those of the include list, or the refusal lists its file in each of them in that order. A
name without the extension and the name with it lead to the same file, where only the extension is
redundant, or are refused after the same paths. -/
theorem find_first (p : SearchPath) (isFile : String → Bool) (hempty : name ≠ "")
    (hnul : '\x00' ∉ name.toList) :
    ((∃ before dir after, p.search ++ p.included = before ++ dir :: after ∧
        (∀ d ∈ before, isFile (join d (fileName name).1) = false) ∧
        isFile (join dir (fileName name).1) = true ∧
        p.find isFile name = .ok ⟨join dir (fileName name).1, (fileName name).2⟩) ∨
      ((∀ d ∈ p.search ++ p.included, isFile (join d (fileName name).1) = false) ∧
        p.find isFile name = .error (.notFound name
          ((p.search ++ p.included).map fun d => join d (fileName name).1)))) ∧
    (¬ extension.toList <:+ name.toList →
      (∃ path, p.find isFile name = .ok ⟨path, false⟩ ∧
        p.find isFile (name ++ extension) = .ok ⟨path, true⟩) ∨
      ∃ searched, p.find isFile name = .error (.notFound name searched) ∧
        p.find isFile (name ++ extension) = .error (.notFound (name ++ extension) searched)) := by
  have hsearch {name : String} (hempty : name ≠ "") (hnul : '\x00' ∉ name.toList) :
      p.find isFile name = match (p.tried name).find? isFile with
        | some path => .ok ⟨path, (fileName name).2⟩
        | none => .error (.notFound name (p.tried name)) := by
    rw [find_eq, if_neg (by simp [hempty, hnul])]
  constructor
  · rw [hsearch hempty hnul]
    cases hfirst : (p.tried name).find? isFile with
    | some path =>
      obtain ⟨before, dir, after, hdirs, hbefore, hfile, rfl⟩ := exists_dir_of_first hfirst
      exact .inl ⟨before, dir, after, hdirs, hbefore, hfile, rfl⟩
    | none => exact .inr ⟨isFile_eq_false_of_first hfirst, rfl⟩
  · intro hsuffix
    have hempty' : name ++ extension ≠ "" := by simp [extension]
    have hnul' : '\x00' ∉ (name ++ extension).toList := by
      rw [String.toList_append, List.mem_append]
      exact not_or.2 ⟨hnul, by decide⟩
    rw [hsearch hempty hnul, hsearch hempty' hnul', p.tried_append_extension hsuffix,
      fileName_of_not_suffix hsuffix, fileName_of_suffix (suffix_append_extension name)]
    cases (p.tried name).find? isFile with
    | some path => exact .inl ⟨path, rfl, rfl⟩
    | none => exact .inr ⟨p.tried name, rfl, rfl⟩

/-- Of two files with the name, that in the earlier directory is found. -/
theorem find_first_of_two :
    let p : SearchPath := ⟨["a"], ["b", "c"]⟩
    let isFile : String → Bool := fun path => path = "b/x.g" || path = "c/x.g"
    "x" ≠ "" ∧ '\x00' ∉ "x".toList ∧ ¬ extension.toList <:+ "x".toList ∧
      p.find isFile "x" = .ok ⟨"b/x.g", false⟩ ∧ p.find isFile "x.g" = .ok ⟨"b/x.g", true⟩ := by
  intro p isFile
  have hempty : "x" ≠ "" := by decide
  have hnul : '\x00' ∉ "x".toList := by decide
  have hsuffix : ¬ extension.toList <:+ "x".toList := by decide
  have hfound : p.find isFile "x" = .ok ⟨"b/x.g", false⟩ := rfl
  refine ⟨hempty, hnul, hsuffix, hfound, ?_⟩
  rcases (find_first p isFile hempty hnul).2 hsuffix with ⟨path, h, hwith⟩ | ⟨searched, h, -⟩
  · cases hfound.symm.trans h
    exact hwith
  · cases hfound.symm.trans h

end SearchPath
end ClassIndex
