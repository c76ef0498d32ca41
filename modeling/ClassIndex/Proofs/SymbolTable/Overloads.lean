/-
# Overloads are told apart

Two declarations get the same key only if their paths are the same, step by step and type by type.
So a declaration is refused because its name is taken only where an earlier one was stored under
the same path (`overloads_distinct`). What people read of a key tells the paths apart too, as long
as names and types are words, for no mark that is added for people is in a word:

| boundary | in a key | as people read it |
| --- | --- | --- |
| before a step | `$` | `.`, but nothing before the first |
| before a type | `@` | `(` before the first of a step, `,` before the others |
| behind the types of a step | none | `)` |
-/

import ClassIndex.Proofs.SymbolTable.Path

namespace ClassIndex

/-- A row is read back from what it joins to, if no member is empty or has the separator in it. -/
theorem filter_splitOn_intercalate {α : Type} [DecidableEq α] {x : α} {ls : List (List α)}
    (h : ∀ l ∈ ls, l ≠ [] ∧ x ∉ l) :
    (([x].intercalate ls).splitOn x).filter (fun l => ! l.isEmpty) = ls := by
  by_cases hls : ls = []
  · subst hls
    rfl
  · rw [List.splitOn_intercalate x (fun l hl => (h l hl).2) hls, List.filter_eq_self]
    intro l hl
    simpa using (h l hl).1

/-- A text that is made of letters, digits and underscores, of at least one. -/
def IsWord (text : String) : Prop :=
  text ≠ "" ∧ ∀ c ∈ text.toList, (c.isAlphanum || c == '_') = true

namespace IsWord

variable {text : String}

theorem of_all (hne : text ≠ "")
    (hall : (text.toList.all fun c => c.isAlphanum || c == '_') = true) : IsWord text :=
  ⟨hne, List.all_eq_true.1 hall⟩

theorem not_mem (h : IsWord text) {c : Char} (hc : (c.isAlphanum || c == '_') = false) :
    c ∉ text.toList := by
  intro hmem
  rw [h.2 c hmem] at hc
  cases hc

theorem toList_ne_nil (h : IsWord text) : text.toList ≠ [] :=
  fun hnil => h.1 (String.toList_inj.1 hnil)

theorem unmarked (h : IsWord text) : Decoration.Unmarked text.toList :=
  ⟨h.not_mem (by decide), h.not_mem (by decide)⟩

end IsWord

/-- A step whose name and types are words. -/
def Segment.Worded (s : Segment) : Prop := IsWord s.name ∧ ∀ t ∈ s.types, IsWord t

theorem Segment.Worded.plain {s : Segment} (h : s.Worded) : s.Plain :=
  ⟨h.1.unmarked, fun t ht => (h.2 t ht).unmarked⟩

namespace Decoration

variable {s s' : Segment} {path path' : List Segment}

/-! ## What people read -/

theorem toList_segmentText (s : Segment) : (segmentText s).toList = s.name.toList ++
    if s.types = [] then []
    else '(' :: ([','].intercalate (s.types.map String.toList) ++ [')']) := by
  unfold segmentText
  cases s.types with
  | nil => simp
  | cons t types => simp [String.toList_intercalate]

/-- A step as people read it is cut at its first parenthesis into its name and its types. -/
theorem cut_segmentText (h : s.Worded) :
    (segmentText s).toList.takeWhile (· != '(') = s.name.toList ∧
      (segmentText s).toList.dropWhile (· != '(') =
        if s.types = [] then []
        else '(' :: ([','].intercalate (s.types.map String.toList) ++ [')']) := by
  have hname : ∀ c ∈ s.name.toList, (c != '(') = true := by
    intro c hc
    rw [bne_iff_ne]
    rintro rfl
    exact h.1.not_mem (by decide) hc
  rw [toList_segmentText]
  refine run_append hname fun c hc => ?_
  split at hc
  · cases hc
  · rw [← Option.some.inj hc]
    rfl

/-- Steps of words that people read alike are the same. -/
theorem eq_of_segmentText (h : s.Worded) (h' : s'.Worded)
    (heq : segmentText s = segmentText s') : s = s' := by
  have htypes : ∀ {s : Segment}, s.Worded →
      ∀ l ∈ s.types.map String.toList, l ≠ [] ∧ ',' ∉ l := by
    intro s h l hl
    obtain ⟨t, ht, rfl⟩ := List.mem_map.1 hl
    exact ⟨(h.2 t ht).toList_ne_nil, (h.2 t ht).not_mem (by decide)⟩
  obtain ⟨hname, hrest⟩ := cut_segmentText h
  obtain ⟨hname', hrest'⟩ := cut_segmentText h'
  rw [heq, hname'] at hname
  rw [heq, hrest'] at hrest
  obtain ⟨name, types⟩ := s
  obtain ⟨name', types'⟩ := s'
  have hrow : types.map String.toList = types'.map String.toList := by
    dsimp only at hrest
    split at hrest <;> split at hrest
    · simp_all
    · cases hrest
    · cases hrest
    · have hjoin := List.append_cancel_right (List.cons.inj hrest).2
      rw [← filter_splitOn_intercalate (htypes h), ← filter_splitOn_intercalate (htypes h'), hjoin]
  obtain rfl : name = name' := String.toList_inj.1 hname.symm
  rw [List.map_injective_iff.2 (fun _ _ => String.toList_inj.1) hrow]

/-- Paths of words whose steps people read alike are the same. -/
theorem eq_of_map_segmentText (h : ∀ s ∈ path, s.Worded) (h' : ∀ s ∈ path', s.Worded)
    (heq : path.map segmentText = path'.map segmentText) : path = path' := by
  induction path generalizing path' with
  | nil => exact (List.map_eq_nil_iff.1 heq.symm).symm
  | cons s path ih =>
    obtain ⟨s', path', rfl, hstep, hpath⟩ := List.map_eq_cons_iff.1 heq.symm
    obtain ⟨hs, hsteps⟩ := List.forall_mem_cons.1 h
    obtain ⟨hs', hsteps'⟩ := List.forall_mem_cons.1 h'
    rw [eq_of_segmentText hs' hs hstep, ih hsteps hsteps' hpath.symm]

/-- A step as people read it is not empty and has no point in it. -/
theorem segmentText_pointless (h : s.Worded) :
    (segmentText s).toList ≠ [] ∧ '.' ∉ (segmentText s).toList := by
  obtain ⟨name, types⟩ := s
  obtain ⟨hname, htypes⟩ := h
  dsimp only at hname htypes
  rw [toList_segmentText]
  refine ⟨List.append_ne_nil_of_left_ne_nil hname.toList_ne_nil _, fun hmem => ?_⟩
  rcases List.mem_append.1 hmem with hmem | hmem
  · exact hname.not_mem (by decide) hmem
  · have htype : ∀ t ∈ types, '.' ∉ t.toList := fun t ht => (htypes t ht).not_mem (by decide)
    cases types with
    | nil => cases hmem
    | cons t types =>
      obtain ⟨ht, htypes⟩ := List.forall_mem_cons.1 htype
      rw [if_neg (List.cons_ne_nil _ _), List.map_cons, intercalate_cons] at hmem
      obtain ⟨t', ht', hmem⟩ : ∃ t' ∈ types, '.' ∈ t'.toList := by simpa [ht] using hmem
      exact htypes t' ht' hmem

/-- **What people read of a path of words is read of no other.** -/
theorem eq_of_readable (h : ∀ s ∈ path, s.Worded) (h' : ∀ s ∈ path', s.Worded)
    (heq : readable (key ⟨path⟩) = readable (key ⟨path'⟩)) : path = path' := by
  have hsteps : ∀ {path : List Segment}, (∀ s ∈ path, s.Worded) →
      ∀ l ∈ (path.map segmentText).map String.toList, l ≠ [] ∧ '.' ∉ l := by
    intro path h l hl
    rw [List.map_map] at hl
    obtain ⟨s, hs, rfl⟩ := List.mem_map.1 hl
    exact segmentText_pointless (h s hs)
  have hread : ∀ {path : List Segment}, (∀ s ∈ path, s.Worded) →
      (readable (key ⟨path⟩)).toList
        = ['.'].intercalate ((path.map segmentText).map String.toList) := by
    intro path h
    rw [readable_key fun s hs => (h s hs).plain, Decoration.text, String.toList_intercalate]
    rfl
  have hrow : (path.map segmentText).map String.toList
      = (path'.map segmentText).map String.toList := by
    rw [← filter_splitOn_intercalate (hsteps h), ← filter_splitOn_intercalate (hsteps h'),
      ← hread h, ← hread h', heq]
  exact eq_of_map_segmentText h h'
    (List.map_injective_iff.2 (fun _ _ => String.toList_inj.1) hrow)

/-- Paths without markers in them that have the same key are the same. -/
theorem eq_of_key (h : ∀ s ∈ path, s.Plain) (h' : ∀ s ∈ path', s.Plain)
    (heq : key ⟨path⟩ = key ⟨path'⟩) : path = path' := by
  have hparse := parse_key h
  rw [heq, parse_key h'] at hparse
  exact (Decoration.mk.inj hparse).symm

end Decoration

namespace SymbolTable

open Decoration (key readable)
open Diagnostic (Journal)

variable {t : SymbolTable} {r : Register}

/-! ## What is taken was stored -/

/-- A key that a call adds is that of a declaration that is stored. -/
theorem Keeps.adds (h : Keeps t r) (j : Journal) (call : Call) {key : String}
    (hkey : (t.answer j call).2.1.contains key = true) :
    t.contains key = true ∨
      ∃ s, call = .declare s ∧ t.currentKey = key ∧ (t.declare j s).1 = .ok () := by
  obtain ⟨r', events, ha, h', -⟩ := h.answered j call
  rw [h'.contains_eq, Finmap.lookup_isSome] at hkey
  rw [h.contains_eq, Finmap.lookup_isSome, h.currentKey_eq]
  generalize hanswer : (t.answer j call).1 = a at ha
  cases ha with
  | @declare s hfits hfree =>
    rcases Finmap.mem_insert.1 hkey with rfl | hkey
    · refine .inr ⟨s, rfl, rfl, ?_⟩
      simpa [answer] using hanswer
    · exact .inl hkey
  | @update key' s hmem hfits =>
    rcases Finmap.mem_insert.1 hkey with rfl | hkey
    · exact .inl hmem
    · exact .inl hkey
  | _ => exact .inl hkey

/-- A symbol is stored under a key by a declaration among some calls on a table. -/
def StoredBy (t : SymbolTable) (j : Journal) (calls : List Call) (key : String)
    (before : List Call) : Prop :=
  ∃ s later, calls = before ++ .declare s :: later ∧ (t.run j before).2.1.currentKey = key ∧
    ((t.run j before).2.1.declare (t.run j before).2.2 s).1 = .ok ()

/-- **A key that is taken after some calls was taken before them, or is that of a declaration among
them that is stored.** -/
theorem Keeps.taken (h : Keeps t r) (j : Journal) (calls : List Call) {key : String}
    (hkey : (t.run j calls).2.1.contains key = true) :
    t.contains key = true ∨ ∃ before, StoredBy t j calls key before := by
  induction calls generalizing t r j with
  | nil => exact .inl hkey
  | cons call calls ih =>
    obtain ⟨r', events, -, h', -⟩ := h.answered j call
    rcases ih h' (t.answer j call).2.2 hkey with hfirst | ⟨before, s, later, rfl, hname, hstored⟩
    · rcases h.adds j call hfirst with hbefore | ⟨s, rfl, hname, hstored⟩
      · exact .inl hbefore
      · exact .inr ⟨[], s, calls, rfl, hname, hstored⟩
    · exact .inr ⟨call :: before, s, later, rfl, hname, hstored⟩

/-- A declaration is refused because its name is taken only if it is. -/
theorem Keeps.contains_of_declare (h : Keeps t r) {j : Journal} {s : Symbol} {name : String}
    (hrefused : (t.declare j s).1 = .error (.alreadyExists name)) :
    t.contains t.currentKey = true ∧ name = readable t.currentKey := by
  obtain ⟨r', events, ha, -, -⟩ := h.declare j s
  rw [h.contains_eq, Finmap.lookup_isSome, h.currentKey_eq]
  rw [show (t.answer j (.declare s)).1 = .stored (t.declare j s).1 from rfl, hrefused] at ha
  cases ha with
  | declareMismatch _ he _ => cases he
  | declarePresent _ hmem he _ => exact ⟨hmem, by simpa using he⟩

/-- **Overloads are told apart.** Paths without markers in them have the same key only if they are
the same; so a declaration under such a path is refused because its name is taken only if an
earlier one was stored under the same steps with the same types. Paths of words are read alike only
if they are the same. -/
theorem overloads_distinct :
    (∀ path path' : List Segment, (∀ s ∈ path, s.Plain) → (∀ s ∈ path', s.Plain) →
      key ⟨path⟩ = key ⟨path'⟩ → path = path') ∧
    (∀ (calls : List Call) (j k : Journal) (s : Symbol) (name : String),
      (∀ call ∈ calls, call.Plain) →
      ((empty.run j calls).2.1.declare k s).1 = .error (.alreadyExists name) →
      ∃ before, StoredBy empty j calls (empty.run j calls).2.1.currentKey before ∧
        pathAfter before = pathAfter calls) ∧
    ∀ path path' : List Segment, (∀ s ∈ path, s.Worded) → (∀ s ∈ path', s.Worded) →
      readable (key ⟨path⟩) = readable (key ⟨path'⟩) → path = path' := by
  refine ⟨fun _ _ => Decoration.eq_of_key, ?_, fun _ _ => Decoration.eq_of_readable⟩
  intro calls j k s name hplain hrefused
  obtain ⟨r, -, -, h, -⟩ := keeps_empty.runs j calls
  obtain ⟨htaken, -⟩ := h.contains_of_declare hrefused
  rcases keeps_empty.taken j calls htaken with hempty | ⟨before, hstored⟩
  · rw [keeps_empty.contains_eq] at hempty
    simp at hempty
  · refine ⟨before, hstored, ?_⟩
    -- the same key stands for one path only
    obtain ⟨s', later, rfl, hname, -⟩ := hstored
    have hbefore :=
      (currentKey_spells (List.forall_mem_append.1 hplain).1 j).parse_eq fun _ h => h.1
    have hpath := (currentKey_spells hplain j).parse_eq fun _ h => h.1
    rw [hname, hpath.1] at hbefore
    exact (Decoration.mk.inj hbefore.1).symm

/-- A method is declared a second time after its class was gone back to, beside an overload. -/
theorem overloads_distinct_again :
    let area : List Segment := [⟨"Shape", []⟩, ⟨"area", ["int"]⟩]
    let overload : List Segment := [⟨"Shape", []⟩, ⟨"area", ["int", "int"]⟩]
    let calls : List Call := [.begin, .addName "Shape", .addName "area", .addType "int",
      .declare .newClass, .truncate, .addName "area", .addType "int"]
    (∀ s ∈ area ++ overload, s.Worded) ∧ (∀ call ∈ calls, call.Plain) ∧
      key ⟨pathAfter calls⟩ = key ⟨area⟩ ∧ pathAfter calls = area ∧
      ((empty.run .empty calls).2.1.declare .empty .newClass).1
        = .error (.alreadyExists "Shape.area(int)") ∧
      (∃ before, StoredBy empty .empty calls (empty.run .empty calls).2.1.currentKey before ∧
        pathAfter before = area) ∧
      readable (key ⟨area⟩) ≠ readable (key ⟨overload⟩) := by
  intro area overload calls
  have hshape : IsWord "Shape" := .of_all (by decide) (by decide)
  have hname : IsWord "area" := .of_all (by decide) (by decide)
  have htype : IsWord "int" := .of_all (by decide) (by decide)
  have hworded : ∀ s ∈ area ++ overload, s.Worded := by
    simp [area, overload, Segment.Worded, hshape, hname, htype]
  obtain ⟨harea, hoverload⟩ := List.forall_mem_append.1 hworded
  have hplain : ∀ s ∈ area, s.Plain := fun s hs => (harea s hs).plain
  have hcalls : ∀ call ∈ calls, call.Plain := by
    simp only [calls, Call.Plain, Call.component?, Decoration.Unmarked, List.mem_cons,
      List.not_mem_nil, or_false, forall_eq_or_imp, forall_eq, forall_eq', Option.mem_def,
      Option.some.injEq, reduceCtorEq, false_imp_iff, implies_true, true_and]
    decide
  have hkey : key ⟨pathAfter calls⟩ = key ⟨area⟩ := by decide
  have hrefused : ((empty.run .empty calls).2.1.declare .empty .newClass).1
      = .error (.alreadyExists "Shape.area(int)") := by
    decide +kernel
  have hread : readable (key ⟨area⟩) ≠ readable (key ⟨overload⟩) := fun heq =>
    absurd (overloads_distinct.2.2 area overload harea hoverload heq) (by decide)
  exact ⟨hworded, hcalls, hkey, overloads_distinct.1 _ area hplain hplain hkey, hrefused,
    overloads_distinct.2.1 calls .empty .empty .newClass _ hcalls hrefused, hread⟩

end SymbolTable
end ClassIndex
