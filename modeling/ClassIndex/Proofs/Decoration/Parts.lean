/-
# What is read off a key

Four readers look for the boundaries of steps in a key as it stands, without parsing it. On the key
of any steps, as long as no name and no type has a marker in it, each finds what the steps say:

| reader | stops at | on the key of the steps |
| --- | --- | --- |
| length of the class | the second `$`, in bytes | the length of the key of the first step |
| class | the second marker | the first name, with its marker |
| name | begins at the second `$` | the key of the steps after the first, none if there are none |
| type of a number | counts every `@` | the type of that number among those of all steps |
-/

import ClassIndex.Proofs.Decoration
import ClassIndex.Proofs.Text.Utf8

namespace ClassIndex
namespace Decoration

open Segment (Plain parts)

variable {c : Char} {text cs : List Char} {first : Segment} {rest segments : List Segment}
  {ps : List (Char × String)}

/-! ## Boundaries -/

/-- A run of characters ends at the first that does not belong to it. -/
theorem run_append {p : Char → Bool} (htext : ∀ c ∈ text, p c = true)
    (hcs : ∀ c ∈ cs.head?, p c = false) :
    (text ++ cs).takeWhile p = text ∧ (text ++ cs).dropWhile p = cs := by
  rw [List.takeWhile_append_of_pos htext, List.dropWhile_append_of_pos htext]
  cases cs with
  | nil => exact ⟨List.append_nil _, rfl⟩
  | cons c cs =>
    have hc : ¬ p c = true := Bool.eq_false_iff.1 (hcs c rfl)
    rw [List.takeWhile_cons_of_neg hc, List.dropWhile_cons_of_neg hc, List.append_nil]
    exact ⟨rfl, rfl⟩

/-- Behind a character of one byte, the class reaches to the next name marker. -/
theorem classPrefixLength_utf8 (hc : c.toNat < 0x80) (cs : List Char) :
    classPrefixLength ((c :: cs).flatMap String.utf8EncodeChar)
      = ((c :: cs.takeWhile (· != nameMarker)).flatMap String.utf8EncodeChar).length := by
  have hcut := Text.takeWhile_utf8 (m := nameMarker) (by decide) cs
  rw [List.flatMap_cons, List.flatMap_cons, Text.encodeChar_of_lt hc, List.singleton_append,
    List.singleton_append, classPrefixLength, List.length_cons, ← hcut, Nat.add_comm]
  rfl

/-! ## The key of steps -/

/-- Types are written without a name marker. -/
theorem nameMarker_not_mem_spelled (h : ∀ p ∈ ps, p.1 = typeMarker ∧ Unmarked p.2.toList) :
    nameMarker ∉ spelled ps := by
  simp only [spelled, List.mem_flatMap, List.mem_cons, not_exists, not_and, not_or]
  exact fun p hp => ⟨(h p hp).1.symm ▸ typeMarker_ne.symm, (h p hp).2.1⟩

/-- The characters of a step behind its name marker. -/
def body (s : Segment) : List Char := s.name.toList ++ spelled (s.types.map (typeMarker, ·))

theorem toList_key_cons (first : Segment) (rest : List Segment) :
    (key ⟨first :: rest⟩).toList = nameMarker :: (body first ++ (key ⟨rest⟩).toList) := by
  rw [toList_key, toList_key, List.flatMap_cons, spelled_append, parts, spelled_cons]
  rfl

theorem body_ne (h : first.Plain) : ∀ c ∈ body first, (c != nameMarker) = true := by
  intro c hc
  rw [bne_iff_ne]
  rintro rfl
  rcases List.mem_append.1 hc with hname | htypes
  · exact h.1.1 hname
  · refine nameMarker_not_mem_spelled (fun p hp => ?_) htypes
    obtain ⟨t, ht, rfl⟩ := List.mem_map.1 hp
    exact ⟨rfl, h.2 t ht⟩

/-- The key of steps is empty or opens with a name marker. -/
theorem head_key (segments : List Segment) :
    ∀ c ∈ (key ⟨segments⟩).toList.head?, c = nameMarker := by
  intro c hc
  cases segments with
  | nil => cases hc
  | cons first rest =>
    rw [toList_key_cons] at hc
    exact (Option.some.inj hc).symm

/-- A key is cut at its second name marker into the first step and the others. -/
theorem cut_key (h : first.Plain) (rest : List Segment) :
    (body first ++ (key ⟨rest⟩).toList).takeWhile (· != nameMarker) = body first ∧
      (body first ++ (key ⟨rest⟩).toList).dropWhile (· != nameMarker) = (key ⟨rest⟩).toList :=
  run_append (body_ne h) fun c hc => by simp [head_key rest c hc]

/-! ## The readers -/

/-- **The class is as long as the key of the first step.** -/
theorem classPrefixLength_key (h : first.Plain) (rest : List Segment) :
    classPrefixLength (Text.utf8 (key ⟨first :: rest⟩)) = (Text.utf8 (key ⟨[first]⟩)).length := by
  have hnil : (key ⟨[]⟩).toList = [] := rfl
  rw [Text.utf8_eq_flatMap, Text.utf8_eq_flatMap, toList_key_cons, toList_key_cons,
    classPrefixLength_utf8 (by decide), (cut_key h rest).1, hnil, List.append_nil]

/-- **The class is the first name.** -/
theorem classPart?_key (h : first.Plain) (rest : List Segment) :
    classPart? (key ⟨first :: rest⟩) = some ("$" ++ first.name) := by
  have hname : ∀ c ∈ first.name.toList, (! isMarker c) = true := by
    intro c hc
    rw [unmarked_iff.1 h.1 c hc]
    rfl
  have hmarker : ∀ c ∈ (spelled (first.types.map (typeMarker, ·)) ++
      (key ⟨rest⟩).toList).head?, (! isMarker c) = false := by
    intro c hc
    rw [Bool.not_eq_false', isMarker_iff]
    cases htypes : first.types with
    | nil =>
      rw [htypes] at hc
      exact .inl (head_key rest c hc)
    | cons t types =>
      rw [htypes] at hc
      exact .inr (Option.some.inj hc).symm
  have hcut := (run_append hname hmarker).1
  have hspelled : String.ofList (nameMarker :: first.name.toList) = "$" ++ first.name := by
    rw [← String.toList_inj, String.toList_ofList, String.toList_append]
    rfl
  rw [classPart?, toList_key_cons, body, List.append_assoc]
  dsimp only
  rw [if_pos rfl, hcut, hspelled]

/-- **The name is the key of the steps after the first.** -/
theorem namePart?_key (h : first.Plain) (rest : List Segment) :
    namePart? (key ⟨first :: rest⟩) = if rest = [] then none else some (key ⟨rest⟩) := by
  rw [namePart?, toList_key_cons]
  dsimp only
  rw [(cut_key h rest).2]
  cases rest with
  | nil => rfl
  | cons second others =>
    rw [if_neg (List.cons_ne_nil _ _), toList_key_cons]
    dsimp only
    rw [← toList_key_cons, String.ofList_toList]

/-- **The types are those of all steps,** one after the other. -/
theorem typePart?_key (h : ∀ s ∈ segments, s.Plain) (i : Nat) :
    typePart? (key ⟨segments⟩) i = (segments.flatMap (·.types))[i]? := by
  have hfilter : ∀ s : Segment,
      s.parts.filter (·.1 == typeMarker) = s.types.map (typeMarker, ·) := by
    intro s
    have hname : (nameMarker == typeMarker) = false := by decide
    simp [parts, hname, List.filter_map, Function.comp_def]
  have htypes : ((components (key ⟨segments⟩)).filter (·.1 == typeMarker)).map (·.2)
      = segments.flatMap (·.types) := by
    rw [components_key h, List.filter_flatMap, List.map_flatMap]
    simp [hfilter, Function.comp_def]
  rw [typePart?, ← htypes, List.getElem?_map]

end Decoration
end ClassIndex
