/-
# Paths that lead somewhere

A walk goes on only over pieces that it knows: empty ones and those of dots, which name nothing, and
names in the tree. So a path that leads somewhere is written with slashes, dots and the characters
of names (`FileTree.mem_name_of_lookup`).

| piece of the path | where the walk goes on |
| --- | --- |
| empty, `.` | where it is |
| `..` | in the folder around, or outside |
| any other | at the file or folder of that name |
-/

import ClassIndex.FileTree

namespace ClassIndex

theorem Text.splitAt_eq_splitOn (separator : Char) (cs : List Char) :
    splitAt separator cs = cs.splitOn separator := by
  induction cs with
  | nil => rfl
  | cons c cs ih =>
    rw [splitAt, List.splitOn_cons_eq_if_modifyHead]
    by_cases hc : c = separator
    · rw [if_pos hc, if_pos (beq_iff_eq.2 hc), ih]
    · rw [if_neg hc, if_neg (mt beq_iff_eq.1 hc), ← ih]
      obtain ⟨part, parts, hparts⟩ := List.exists_cons_of_ne_nil (splitAt_ne_nil separator cs)
      rw [hparts]
      rfl

/-- A character of a text but the separator is in one of its parts. -/
theorem Text.exists_mem_splitAt {separator c : Char} {cs : List Char} (hc : c ∈ cs)
    (hne : c ≠ separator) : ∃ part ∈ splitAt separator cs, c ∈ part := by
  induction cs with
  | nil => cases hc
  | cons d cs ih =>
    rw [splitAt]
    by_cases hd : d = separator
    · rw [if_pos hd]
      obtain ⟨part, hpart, hmem⟩ := ih ((List.mem_cons.1 hc).resolve_left fun h => hne (h.trans hd))
      exact ⟨part, List.mem_cons_of_mem _ hpart, hmem⟩
    · rw [if_neg hd]
      rcases hparts : splitAt separator cs with _ | ⟨part, parts⟩
      · exact absurd hparts (splitAt_ne_nil separator cs)
      rw [hparts] at ih
      rcases List.mem_cons.1 hc with rfl | hc
      · exact ⟨c :: part, List.mem_cons_self, List.mem_cons_self⟩
      · obtain ⟨part', hpart', hmem⟩ := ih hc
        rcases List.mem_cons.1 hpart' with rfl | hpart'
        · exact ⟨d :: part', List.mem_cons_self, List.mem_cons_of_mem d hmem⟩
        · exact ⟨part', List.mem_cons_of_mem _ hpart', hmem⟩

namespace FileTree

variable {t : FileTree} {spot spot' : Spot} {piece path : String} {c : Char}

/-- A name of a file or of a folder in the tree. -/
def HasName (t : FileTree) (name : String) : Prop :=
  ∃ names ∈ t.folders ++ t.files.map Prod.fst, name ∈ names

/-- A walk goes on over dots and names only. -/
theorem hasName_of_step (h : t.step spot piece = .ok spot') :
    piece ∈ ["", ".", ".."] ∨ t.HasName piece := by
  have hdots (h : (piece = "" || piece = "." || piece = "..") = true) :
      piece ∈ ["", ".", ".."] := by
    simpa [or_assoc] using h
  cases spot with
  | file bytes => cases h
  | outside =>
    simp only [step] at h
    split at h
    · rename_i hpiece
      exact .inl (hdots hpiece)
    · split at h <;> cases h
  | folder names =>
    simp only [step] at h
    split at h
    · rename_i hpiece
      exact .inl (hdots (by rw [hpiece, Bool.true_or]))
    · split at h
      · rename_i hup
        exact .inl (hdots (by simp [hup]))
      · split at h
        · cases h
        · right
          split at h
          · rename_i bytes hfile
            obtain ⟨l₁, l₂, hl, -⟩ := List.lookup_eq_some_iff.1 hfile
            refine ⟨piece :: names, List.mem_append_right _ ?_, List.mem_cons_self⟩
            rw [hl]
            simp
          · split at h
            · rename_i hfolder
              exact ⟨piece :: names, List.mem_append_left _ (List.contains_iff_mem.1 hfolder),
                List.mem_cons_self⟩
            · cases h

theorem hasName_of_walk {ps : List String} (h : t.walk ps spot = .ok spot') :
    ∀ p ∈ ps, p ∈ ["", ".", ".."] ∨ t.HasName p := by
  induction ps generalizing spot with
  | nil => exact List.forall_mem_nil _
  | cons p ps ih =>
    rw [walk] at h
    split at h
    · rename_i hstep
      exact List.forall_mem_cons.2 ⟨hasName_of_step hstep, ih h⟩
    · cases h

/-- **A path that leads somewhere has only characters of names** besides its slashes and dots. -/
theorem mem_name_of_lookup (h : t.lookup path = .ok spot) (hc : c ∈ path.toList) (hslash : c ≠ '/')
    (hdot : c ≠ '.') : ∃ name, t.HasName name ∧ c ∈ name.toList := by
  have hwalk : t.walk (pieces path) (start path) = .ok spot := by
    unfold lookup at h
    split at h
    · cases h
    · split at h
      · cases h
      · split at h
        · cases h
        · exact h
  obtain ⟨part, hpart, hmem⟩ := Text.exists_mem_splitAt hc hslash
  have hpiece : String.ofList part ∈ pieces path := List.mem_map_of_mem hpart
  rw [← String.toList_ofList (l := part)] at hmem
  rcases hasName_of_walk hwalk _ hpiece with hdots | hname
  · generalize String.ofList part = piece at hdots hmem
    simp only [List.mem_cons, List.not_mem_nil, or_false] at hdots
    rcases hdots with rfl | rfl | rfl <;> simp [hdot] at hmem
  · exact ⟨_, hname, hmem⟩

/-- A file can be read to its end. -/
theorem read_of_isFile (h : t.isFile path = true) : ∃ bytes, t.read path = .ok (bytes, none) := by
  unfold isFile at h
  unfold read
  split at h
  · rename_i bytes hlookup
    exact ⟨bytes, by rw [hlookup]⟩
  · cases h

/-- What can be read is led to by a path of names. -/
theorem mem_name_of_read {bytes : List UInt8} {failure? : Option String}
    (h : t.read path = .ok (bytes, failure?)) (hc : c ∈ path.toList) (hslash : c ≠ '/')
    (hdot : c ≠ '.') : ∃ name, t.HasName name ∧ c ∈ name.toList := by
  unfold read at h
  split at h
  · rename_i hlookup
    exact mem_name_of_lookup hlookup hc hslash hdot
  · rename_i hlookup
    exact mem_name_of_lookup hlookup hc hslash hdot
  · cases h

end FileTree
end ClassIndex
