/-
# Keys and what people read

A key is a row of components, each behind its marker. Where texts have no markers in them, a key
stands for the steps that it was made from (`parse_key`), and a key that opens with a marker is
made of its components. So the two ways to show a key agree, the one character by character and the
one step by step (`renderings_agree`).

| key | steps | read as |
| --- | --- | --- |
| empty | none | nothing |
| opens with `$` | each `$` opens a step | the steps |
| opens with `@` | the first step has no name | the steps |
| opens with other text | those of the rest from its first marker on | that text too |

Text before the first marker is read as if it were a name: so every key is read as the steps of a
key that opens with a name (`readable_eq_text`).
-/

import ClassIndex.Decoration
import ClassIndex.Proofs.Json.Written

namespace ClassIndex

namespace Decoration

/-- A text in which no marker is. -/
def Unmarked (text : List Char) : Prop := nameMarker ∉ text ∧ typeMarker ∉ text

end Decoration

namespace Segment

open Decoration (Unmarked nameMarker typeMarker)

/-- A step whose name and types have no markers in them. -/
def Plain (s : Segment) : Prop := Unmarked s.name.toList ∧ ∀ t ∈ s.types, Unmarked t.toList

/-- The components of a step: its name, and its types. -/
def parts (s : Segment) : List (Char × String) :=
  (nameMarker, s.name) :: s.types.map (typeMarker, ·)

end Segment

namespace Decoration

open Segment (Plain parts)

/-- The characters of a row of components. -/
def spelled (ps : List (Char × String)) : List Char := ps.flatMap fun p => p.1 :: p.2.toList

/-- The steps after a row of components. -/
def assemble (segments : List Segment) (ps : List (Char × String)) : List Segment :=
  ps.foldl (fun segments p => addComponent segments p.1 p.2) segments

/-- A component as keys have them. -/
def IsPart (p : Char × String) : Prop :=
  (p.1 = nameMarker ∨ p.1 = typeMarker) ∧ Unmarked p.2.toList

variable {text cs : List Char} {m : Char} {s : String} {p : Char × String}
  {ps : List (Char × String)} {segments : List Segment}

theorem typeMarker_ne : typeMarker ≠ nameMarker := by decide

theorem isMarker_iff : isMarker m = true ↔ m = nameMarker ∨ m = typeMarker := by
  simp [isMarker]

theorem unmarked_iff : Unmarked text ↔ ∀ c ∈ text, isMarker c = false := by
  simp only [Unmarked, isMarker, Bool.or_eq_false_iff, beq_eq_false_iff_ne]
  constructor
  · rintro ⟨hname, htype⟩ c hc
    exact ⟨fun h => hname (h ▸ hc), fun h => htype (h ▸ hc)⟩
  · intro h
    exact ⟨fun hc => (h _ hc).1 rfl, fun hc => (h _ hc).2 rfl⟩

theorem unmarked_nil : Unmarked [] := ⟨List.not_mem_nil, List.not_mem_nil⟩

/-! ## The components of a key -/

@[simp] theorem spelled_nil : spelled [] = [] := rfl

@[simp] theorem spelled_cons : spelled (p :: ps) = p.1 :: (p.2.toList ++ spelled ps) := rfl

@[simp] theorem spelled_append (qs : List (Char × String)) :
    spelled (ps ++ qs) = spelled ps ++ spelled qs := List.flatMap_append

theorem toList_key (d : Decoration) : d.key.toList = spelled (d.segments.flatMap parts) := by
  have hsegment : ∀ s : Segment, segmentKey s = spelled s.parts := fun s => by
    simp [segmentKey, parts, spelled, List.flatMap_map]
  rw [key, String.toList_ofList, spelled, List.flatMap_assoc]
  exact congrArg d.segments.flatMap (funext hsegment)

theorem cut_marker (hm : isMarker m = true) (cs : List Char) :
    cut (m :: cs) = ([], (m, (cut cs).1) :: (cut cs).2) := by
  simp [cut, hm]

theorem cut_append (h : Unmarked text) (cs : List Char) :
    cut (text ++ cs) = (text ++ (cut cs).1, (cut cs).2) := by
  rw [unmarked_iff] at h
  induction text with
  | nil => rfl
  | cons c text ih =>
    obtain ⟨hc, htext⟩ := List.forall_mem_cons.1 h
    simp [cut, hc, ih htext]

/-- What stands in the components is all of the text but what stands before them. -/
theorem cut_join (cs : List Char) : (cut cs).1 ++ (cut cs).2.flatMap (fun p => p.1 :: p.2) = cs := by
  induction cs with
  | nil => rfl
  | cons c cs ih =>
    rw [cut]
    dsimp only
    split <;> simp [ih]

theorem unmarked_cut (cs : List Char) : Unmarked (cut cs).1 ∧
    ∀ p ∈ (cut cs).2, (p.1 = nameMarker ∨ p.1 = typeMarker) ∧ Unmarked p.2 := by
  induction cs with
  | nil => exact ⟨unmarked_nil, List.forall_mem_nil _⟩
  | cons c cs ih =>
    by_cases hc : isMarker c = true
    · rw [cut_marker hc]
      exact ⟨unmarked_nil, List.forall_mem_cons.2 ⟨⟨isMarker_iff.1 hc, ih.1⟩, ih.2⟩⟩
    · have hcut : cut (c :: cs) = (c :: (cut cs).1, (cut cs).2) := by simp [cut, hc]
      rw [hcut]
      refine ⟨unmarked_iff.2 (List.forall_mem_cons.2 ⟨?_, unmarked_iff.1 ih.1⟩), ih.2⟩
      simpa using hc

theorem isPart_components (s : String) : ∀ p ∈ components s, IsPart p := by
  intro p hp
  obtain ⟨q, hq, rfl⟩ := List.mem_map.1 hp
  have h := (unmarked_cut s.toList).2 q hq
  exact ⟨h.1, by simpa using h.2⟩

/-- The components of a row of components are these. -/
theorem components_spelled (h : ∀ p ∈ ps, IsPart p) : components (.ofList (spelled ps)) = ps := by
  have hcut : cut (spelled ps) = ([], ps.map fun p => (p.1, p.2.toList)) := by
    induction ps with
    | nil => rfl
    | cons p ps ih =>
      obtain ⟨⟨hmarker, htext⟩, hps⟩ := List.forall_mem_cons.1 h
      rw [spelled_cons, cut_marker (isMarker_iff.2 hmarker), cut_append htext, ih hps]
      simp
  rw [components, String.toList_ofList, hcut, List.map_map]
  conv_rhs => rw [← List.map_id ps]
  exact List.map_congr_left fun p _ => by simp

/-- A key that opens with a marker is made of its components. -/
theorem spelled_components (hm : isMarker m = true) (h : s.toList.head? = some m) :
    spelled (components s) = s.toList := by
  obtain ⟨cs, hs⟩ := List.head?_eq_some_iff.1 h
  have hjoin := cut_join s.toList
  rw [hs, cut_marker hm, List.nil_append] at hjoin
  rw [hs, components, hs, cut_marker hm, spelled, List.flatMap_map]
  simpa using hjoin

/-! ## Steps and components -/

theorem addType_concat (segments : List Segment) (name : String) (types : List String)
    (t : String) : addType (segments ++ [⟨name, types⟩]) t
      = segments ++ [⟨name, types ++ [t]⟩] := by
  induction segments with
  | nil => rfl
  | cons s segments ih =>
    cases segments with
    | nil => rfl
    | cons s' segments => exact congrArg (s :: ·) ih

theorem parse_eq (s : String) : parse s = ⟨assemble [] (components s)⟩ := rfl

@[simp] theorem assemble_nil : assemble segments [] = segments := rfl

@[simp] theorem assemble_cons :
    assemble segments (p :: ps) = assemble (addComponent segments p.1 p.2) ps := rfl

theorem assemble_append (segments : List Segment) (ps qs : List (Char × String)) :
    assemble segments (ps ++ qs) = assemble (assemble segments ps) qs := List.foldl_append

theorem addComponent_name (segments : List Segment) (text : String) :
    addComponent segments nameMarker text = segments ++ [⟨text, []⟩] := if_pos rfl

/-- A type behind a step becomes its last type. -/
theorem addComponent_type (segments : List Segment) (name : String) (types : List String)
    (text : String) : addComponent (segments ++ [⟨name, types⟩]) typeMarker text
      = segments ++ [⟨name, types ++ [text]⟩] :=
  (if_neg typeMarker_ne).trans (addType_concat segments name types text)

theorem assemble_types (segments : List Segment) (name : String) (types types' : List String) :
    assemble (segments ++ [⟨name, types⟩]) (types'.map (typeMarker, ·))
      = segments ++ [⟨name, types ++ types'⟩] := by
  induction types' generalizing types with
  | nil => simp
  | cons t types' ih =>
    rw [List.map_cons, assemble_cons, addComponent_type, ih, List.append_assoc]
    rfl

/-- The components of steps assemble to the steps. -/
theorem assemble_parts (segments added : List Segment) :
    assemble segments (added.flatMap parts) = segments ++ added := by
  induction added generalizing segments with
  | nil => simp
  | cons s added ih =>
    have hsegment : assemble segments s.parts = segments ++ [s] := by
      rw [parts, assemble_cons, addComponent_name, assemble_types, List.nil_append]
    rw [List.flatMap_cons, assemble_append, hsegment, ih, List.append_assoc]
    rfl

/-- A component behind a step becomes the last component of the steps. -/
theorem parts_addComponent (hs : segments ≠ []) (hm : m = nameMarker ∨ m = typeMarker)
    (text : String) : (addComponent segments m text).flatMap parts
      = segments.flatMap parts ++ [(m, text)] ∧ addComponent segments m text ≠ [] := by
  rcases hm with rfl | rfl
  · rw [addComponent_name]
    simp [parts]
  · obtain hnil | ⟨init, ⟨name, types⟩, rfl⟩ := List.eq_nil_or_concat' segments
    · exact absurd hnil hs
    · rw [addComponent_type]
      simp [parts]

theorem parts_assemble (hs : segments ≠ []) (h : ∀ p ∈ ps, IsPart p) :
    (assemble segments ps).flatMap parts = segments.flatMap parts ++ ps := by
  induction ps generalizing segments with
  | nil => simp
  | cons p ps ih =>
    obtain ⟨hp, hps⟩ := List.forall_mem_cons.1 h
    obtain ⟨hparts, hne⟩ := parts_addComponent hs hp.1 p.2
    rw [assemble_cons, ih hne hps, hparts, List.append_assoc]
    rfl

/-- No step of a key has a marker in it. -/
theorem plain_assemble (hs : ∀ s ∈ segments, s.Plain) (h : ∀ p ∈ ps, IsPart p) :
    ∀ s ∈ assemble segments ps, s.Plain := by
  induction ps generalizing segments with
  | nil => exact hs
  | cons p ps ih =>
    obtain ⟨⟨hm, htext⟩, hps⟩ := List.forall_mem_cons.1 h
    rw [assemble_cons]
    refine ih ?_ hps
    rcases hm with hm | hm
    · rw [hm, addComponent_name]
      intro s hmem
      rcases List.mem_append.1 hmem with hmem | hmem
      · exact hs s hmem
      · rw [List.mem_singleton.1 hmem]
        exact ⟨htext, List.forall_mem_nil _⟩
    · rw [hm]
      obtain rfl | ⟨init, ⟨name, types⟩, rfl⟩ := List.eq_nil_or_concat' segments
      · exact List.forall_mem_singleton.2 ⟨unmarked_nil, List.forall_mem_singleton.2 htext⟩
      · rw [addComponent_type]
        obtain ⟨hinit, hlast⟩ := List.forall_mem_append.1 hs
        obtain ⟨hname, htypes⟩ := List.forall_mem_singleton.1 hlast
        refine List.forall_mem_append.2 ⟨hinit, List.forall_mem_singleton.2 ⟨hname, ?_⟩⟩
        exact List.forall_mem_append.2 ⟨htypes, List.forall_mem_singleton.2 htext⟩

/-! ## Keys -/

theorem isPart_parts (h : ∀ s ∈ segments, s.Plain) : ∀ p ∈ segments.flatMap parts, IsPart p := by
  intro p hp
  obtain ⟨s, hs, hp⟩ := List.mem_flatMap.1 hp
  obtain ⟨hname, htypes⟩ := h s hs
  rcases List.mem_cons.1 hp with rfl | hp
  · exact ⟨.inl rfl, hname⟩
  · obtain ⟨t, ht, rfl⟩ := List.mem_map.1 hp
    exact ⟨.inr rfl, htypes t ht⟩

/-- The components of a key are those of its steps. -/
theorem components_key (h : ∀ s ∈ segments, s.Plain) :
    components (key ⟨segments⟩) = segments.flatMap parts := by
  have hkey : key ⟨segments⟩ = .ofList (spelled (segments.flatMap parts)) := by
    rw [← toList_key ⟨segments⟩, String.ofList_toList]
  rw [hkey, components_spelled (isPart_parts h)]

/-- A key without markers in its names and types stands for the steps it was made from. -/
theorem parse_key (h : ∀ s ∈ segments, s.Plain) : parse (key ⟨segments⟩) = ⟨segments⟩ := by
  rw [parse_eq, components_key h, assemble_parts, List.nil_append]

/-- What a key stands for has no markers in it. -/
theorem plain_parse (s : String) : ∀ segment ∈ (parse s).segments, segment.Plain :=
  plain_assemble (List.forall_mem_nil _) (isPart_components s)

/-- A key that opens with a name is the key of what it stands for. -/
theorem key_parse (h : s.toList.head? = some nameMarker) : (parse s).key = s := by
  have hspelled := spelled_components rfl h
  obtain ⟨text, ps, hps⟩ : ∃ text ps, components s = (nameMarker, text) :: ps := by
    obtain ⟨cs, hs⟩ := List.head?_eq_some_iff.1 h
    exact ⟨_, _, by rw [components, hs, cut_marker rfl, List.map_cons]⟩
  have hparts : (parse s).segments.flatMap parts = components s := by
    have hmarked := isPart_components s
    rw [hps] at hmarked
    rw [parse_eq, hps, assemble_cons, addComponent_name]
    exact parts_assemble (List.cons_ne_nil _ _) (List.forall_mem_cons.1 hmarked).2
  rw [← String.toList_inj, toList_key, hparts, hspelled]

/-- A type that opens a key belongs to a step without a name. -/
theorem parse_type (h : s.toList.head? = some typeMarker) : parse ("$" ++ s) = parse s := by
  obtain ⟨cs, hs⟩ := List.head?_eq_some_iff.1 h
  have hname : components ("$" ++ s) = (nameMarker, "") :: components s := by
    have hlist : ("$" ++ s).toList = nameMarker :: s.toList := by
      rw [String.toList_append]
      rfl
    rw [components, components, hlist, cut_marker rfl, List.map_cons, hs, cut_marker rfl]
  obtain ⟨text, ps, hps⟩ : ∃ text ps, components s = (typeMarker, text) :: ps :=
    ⟨_, _, by rw [components, hs, cut_marker rfl, List.map_cons]⟩
  rw [parse_eq, parse_eq, hname, hps]
  rfl

/-! ## What people read -/

theorem readableChars_text (h : Unmarked text) (open? : Bool) (cs : List Char) :
    readableChars open? (text ++ cs) = text ++ readableChars open? cs := by
  induction text with
  | nil => rfl
  | cons c text ih =>
    obtain ⟨hname, htype⟩ := h
    rw [List.mem_cons, not_or] at hname htype
    rw [List.cons_append, readableChars, if_neg (Ne.symm hname.1), if_neg (Ne.symm htype.1),
      ih ⟨hname.2, htype.2⟩]
    rfl

/-- Behind the first type, a comma stands before each. -/
theorem readableChars_types {types : List String} (h : ∀ t ∈ types, Unmarked t.toList)
    (cs : List Char) :
    readableChars true (spelled (types.map (typeMarker, ·)) ++ cs)
      = types.flatMap (fun t => ',' :: t.toList) ++ readableChars true cs := by
  induction types with
  | nil => rfl
  | cons t types ih =>
    obtain ⟨ht, htypes⟩ := List.forall_mem_cons.1 h
    rw [List.map_cons, spelled_cons, List.cons_append, List.append_assoc, readableChars,
      if_neg typeMarker_ne, if_pos rfl, if_pos rfl, readableChars_text ht, ih htypes]
    simp

/-- A step closes the list of types before it. -/
theorem readableChars_close (segments : List Segment) :
    readableChars true (spelled (segments.flatMap parts))
      = ')' :: readableChars false (spelled (segments.flatMap parts)) := by
  cases segments with
  | nil => rfl
  | cons s segments => simp [parts, readableChars]

theorem readableChars_segment {s : Segment} (hs : s.Plain) (segments : List Segment) :
    readableChars false (s.name.toList ++ spelled (s.types.map (typeMarker, ·))
        ++ spelled (segments.flatMap parts))
      = (segmentText s).toList ++ readableChars false (spelled (segments.flatMap parts)) := by
  obtain ⟨name, types⟩ := s
  obtain ⟨hname, htypes⟩ := hs
  dsimp only at hname htypes
  rw [List.append_assoc, readableChars_text hname]
  cases types with
  | nil => simp [segmentText]
  | cons t types =>
    obtain ⟨ht, htypes⟩ := List.forall_mem_cons.1 htypes
    rw [List.map_cons, spelled_cons, List.cons_append, List.append_assoc, readableChars,
      if_neg typeMarker_ne, if_pos rfl, if_neg Bool.false_ne_true, readableChars_text ht,
      readableChars_types htypes, readableChars_close]
    simp [segmentText, String.toList_intercalate, intercalate_cons, List.flatMap_map]

theorem readableChars_segments (h : ∀ s ∈ segments, s.Plain) :
    readableChars false (spelled (segments.flatMap parts))
      = segments.flatMap fun s => '.' :: (segmentText s).toList := by
  induction segments with
  | nil => rfl
  | cons s segments ih =>
    obtain ⟨hs, hsegments⟩ := List.forall_mem_cons.1 h
    rw [List.flatMap_cons, spelled_append, parts, spelled_cons, List.cons_append, readableChars,
      if_pos rfl, readableChars_segment hs, ih hsegments, List.flatMap_cons]
    rfl

/-- The key of steps is read as the steps are. -/
theorem readable_key (h : ∀ s ∈ segments, s.Plain) :
    readable (key ⟨segments⟩) = Decoration.text ⟨segments⟩ := by
  rw [← String.toList_inj, readable, String.toList_ofList, toList_key, Decoration.text,
    String.toList_intercalate]
  cases segments with
  | nil => rfl
  | cons s segments =>
    obtain ⟨hs, hsegments⟩ := List.forall_mem_cons.1 h
    rw [List.flatMap_cons, spelled_append, parts, spelled_cons, List.cons_append]
    dsimp only
    rw [if_pos rfl, readableChars_segment hs, readableChars_segments hsegments]
    simp [intercalate_cons, List.flatMap_map]

/-- A key that opens with a name: one that does not is put behind a name marker. -/
def opened (key : String) : String :=
  if key.toList.head? = some nameMarker then key else "$" ++ key

theorem head_opened (key : String) : (opened key).toList.head? = some nameMarker := by
  unfold opened
  split
  · assumption
  · rw [String.toList_append]
    rfl

/-- What opens a key counts as a name, whether its marker stands before it or not. -/
theorem readable_opened (key : String) : readable (opened key) = readable key := by
  unfold opened
  split
  · rfl
  · rename_i h
    rw [readable, readable, String.toList_append]
    cases hkey : key.toList with
    | nil => rfl
    | cons c cs =>
      have hc : c ≠ nameMarker := fun heq => h (by rw [hkey, heq]; rfl)
      dsimp only
      rw [if_neg hc]
      rfl

/-- **Every key is read as the steps it stands for,** once it opens with a name. -/
theorem readable_eq_text (key : String) : readable key = (parse (opened key)).text := by
  rw [← readable_opened, ← readable_key (plain_parse (opened key)), key_parse (head_opened key)]

/-- **Keys stand for their steps, and both ways to read them agree.** -/
theorem renderings_agree :
    (∀ segments : List Segment, (∀ s ∈ segments, s.Plain) →
      parse (key ⟨segments⟩) = ⟨segments⟩) ∧
    (∀ s : String, s.toList.head? = some nameMarker → (parse s).key = s) ∧
    (∀ s : String, parse (parse s).key = parse s) ∧
    ∀ s : String, (s = "" ∨ s.toList.head? = some nameMarker ∨ s.toList.head? = some typeMarker) →
      readable s = (parse s).text := by
  refine ⟨fun _ => parse_key, fun _ => key_parse, fun s => parse_key (plain_parse s), ?_⟩
  rintro s (rfl | hname | htype)
  · rfl
  · rw [readable_eq_text, opened, if_pos hname]
  · have hne : s.toList.head? ≠ some nameMarker := by
      rw [htype]
      decide
    rw [readable_eq_text, opened, if_neg hne, parse_type htype]

theorem renderings_agree_area :
    let area : List Segment := [⟨"Shape", []⟩, ⟨"area", ["int", ""]⟩]
    (∀ s ∈ area, s.Plain) ∧ key ⟨area⟩ = "$Shape$area@int@" ∧ parse (key ⟨area⟩) = ⟨area⟩ ∧
      readable "@int$" = (parse "@int$").text := by
  have hplain : ∀ s ∈ ([⟨"Shape", []⟩, ⟨"area", ["int", ""]⟩] : List Segment), s.Plain := by
    simp only [Plain, Unmarked, List.mem_cons, List.not_mem_nil, or_false, forall_eq_or_imp,
      forall_eq, false_imp_iff, implies_true, and_true]
    decide
  exact ⟨hplain, by decide, renderings_agree.1 _ hplain,
    renderings_agree.2.2.2 _ (.inr (.inr (by decide)))⟩

end Decoration
end ClassIndex
