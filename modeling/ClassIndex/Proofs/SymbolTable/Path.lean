/-
# The current name is a flattened path

The name that is being built up is kept as bytes only: a component is written behind them, and
leaving a declaration cuts them at the second name marker. As long as no component has a marker in
it, they are the bytes of a path of steps (`run_flattens`), which the calls walk like this:

| call | path afterwards |
| --- | --- |
| begin | no steps |
| add a name | one step more, with the name |
| add a type, some steps | the last step has one type more |
| add a type, no steps | one step without a name, with the type |
| truncate | the first step only, with its types |
| any other | the same |

A type that opens the path is written without the marker of the name that it lacks. The path is
read back from the bytes all the same.
-/

import ClassIndex.Proofs.SymbolTable.Register
import Mathlib.Data.List.TakeWhile

namespace ClassIndex
namespace SymbolTable

open Decoration (IsPart Unmarked assemble isMarker key nameMarker parse spelled typeMarker)
open Diagnostic (Event Journal)
open Register (Answers)

/-- The component that a call adds to the current name. -/
def Call.component? : Call → Option (Char × String)
  | .addName name => some (nameMarker, name)
  | .addType type => some (typeMarker, type)
  | _ => none

/-- A call adds no component with a marker in it. -/
def Call.Plain (call : Call) : Prop := ∀ p ∈ call.component?, Unmarked p.2.toList

/-- The path after a call. -/
def Call.walk (path : List Segment) : Call → List Segment
  | .begin => []
  | .addName name => path ++ [⟨name, []⟩]
  | .addType type =>
    match path.getLast? with
    | some last => path.dropLast ++ [⟨last.name, last.types ++ [type]⟩]
    | none => [⟨"", [type]⟩]
  | .truncate => path.take 1
  | _ => path

/-- The path after a row of calls. -/
def pathAfter (calls : List Call) : List Segment := calls.foldl Call.walk []

/-- A name is written as components of a path, each of which is allowed. -/
def Spells (allowed : Char × String → Prop) (name : String) (path : List Segment) : Prop :=
  ∃ ps, (∀ p ∈ ps, allowed p) ∧ name.toList = spelled ps ∧ assemble [] ps = path

variable {allowed : Char × String → Prop} {name : String} {path : List Segment} {call : Call}
  {r r' : Register} {m : Char} {text : String} {p : Char × String} {ps : List (Char × String)}

theorem Call.Plain.isPart (h : call.Plain) : ∀ p ∈ call.component?, IsPart p := by
  intro p hp
  refine ⟨?_, h p hp⟩
  cases call with
  | addName => exact .inl (by rw [← Option.some.inj hp])
  | addType => exact .inr (by rw [← Option.some.inj hp])
  | _ => cases hp

/-- A component is added to the path that a row of components makes. -/
theorem walk_component (h : call.component? = some (m, text)) :
    call.walk path = Decoration.addComponent path m text := by
  cases call with
  | addName name =>
    obtain ⟨rfl, rfl⟩ := Prod.mk.inj (Option.some.inj h)
    exact (Decoration.addComponent_name path name).symm
  | addType type =>
    obtain ⟨rfl, rfl⟩ := Prod.mk.inj (Option.some.inj h)
    obtain rfl | ⟨init, ⟨name, types⟩, rfl⟩ := List.eq_nil_or_concat' path
    · rfl
    · rw [Decoration.addComponent_type, Call.walk, List.getLast?_concat, List.dropLast_concat]
  | _ => cases h

/-! ## Cutting a path -/

/-- What comes later leaves the first step alone once there is a second. -/
theorem addComponent_behind (first : Segment) (hpath : path ≠ []) (m : Char) (text : String) :
    Decoration.addComponent (first :: path) m text
      = first :: Decoration.addComponent path m text := by
  obtain ⟨second, rest, rfl⟩ := List.exists_cons_of_ne_nil hpath
  unfold Decoration.addComponent
  split <;> rfl

theorem assemble_behind (first : Segment) (hpath : path ≠ []) (hps : ∀ p ∈ ps, IsPart p) :
    assemble (first :: path) ps = first :: assemble path ps := by
  induction ps generalizing path with
  | nil => rfl
  | cons p ps ih =>
    obtain ⟨hp, hps⟩ := List.forall_mem_cons.1 hps
    have hne := (Decoration.parts_addComponent hpath hp.1 p.2).2
    rw [Decoration.assemble_cons, addComponent_behind first hpath, ih hne hps,
      Decoration.assemble_cons]

/-- Types behind a step belong to it. -/
theorem assemble_types_behind {qs : List (Char × String)} (hqs : ∀ q ∈ qs, q.1 = typeMarker)
    (s : Segment) : ∃ s', assemble [s] qs = [s'] := by
  induction qs generalizing s with
  | nil => exact ⟨s, rfl⟩
  | cons q qs ih =>
    obtain ⟨hq, hqs⟩ := List.forall_mem_cons.1 hqs
    rw [Decoration.assemble_cons, hq]
    exact ih hqs ⟨s.name, s.types ++ [q.2]⟩

/-- The first step is made by the components before the second name. -/
theorem take_assemble {qs later : List (Char × String)} (hp : IsPart p)
    (hqs : ∀ q ∈ qs, q.1 = typeMarker) (hhead : ∀ q ∈ later.head?, q.1 = nameMarker)
    (hlater : ∀ q ∈ later, IsPart q) :
    (assemble [] (p :: (qs ++ later))).take 1 = assemble [] (p :: qs) := by
  obtain ⟨s, hs⟩ : ∃ s, Decoration.addComponent [] p.1 p.2 = [s] := by
    rcases hp.1 with hm | hm
    · exact ⟨_, by rw [hm, Decoration.addComponent_name, List.nil_append]⟩
    · exact ⟨_, by rw [hm]; rfl⟩
  obtain ⟨s', hs'⟩ := assemble_types_behind hqs s
  rw [Decoration.assemble_cons, Decoration.assemble_cons, hs, Decoration.assemble_append, hs']
  cases later with
  | nil => rfl
  | cons q later =>
    rw [Decoration.assemble_cons, hhead q rfl, Decoration.addComponent_name,
      List.singleton_append, assemble_behind s' (List.cons_ne_nil _ _)
        (List.forall_mem_cons.1 hlater).2]
    rfl

/-- Before the second name marker stand the first component and the types behind it. -/
theorem takeWhile_spelled {qs later : List (Char × String)} (hp : Unmarked p.2.toList)
    (hqs : ∀ q ∈ qs, q.1 = typeMarker ∧ Unmarked q.2.toList)
    (hhead : ∀ q ∈ later.head?, q.1 = nameMarker) :
    (p.2.toList ++ spelled (qs ++ later)).takeWhile (· != nameMarker)
      = p.2.toList ++ spelled qs := by
  have htext : ∀ c ∈ p.2.toList ++ spelled qs, (c != nameMarker) = true := by
    intro c hc
    rw [bne_iff_ne]
    rintro rfl
    rcases List.mem_append.1 hc with hc | hc
    · exact hp.1 hc
    · exact Decoration.nameMarker_not_mem_spelled hqs hc
  have hnext : ∀ c ∈ (spelled later).head?, (c != nameMarker) = false := by
    intro c hc
    cases later with
    | nil => cases hc
    | cons q later =>
      obtain rfl := Option.some.inj hc
      simp [hhead q rfl]
  rw [Decoration.spelled_append, ← List.append_assoc, (Decoration.run_append htext hnext).1]

/-! ## One call -/

namespace Spells

theorem add (h : Spells allowed name path) (hp : allowed (m, text)) :
    Spells allowed (name ++ m.toString ++ text) (Decoration.addComponent path m text) := by
  obtain ⟨ps, hps, hname, rfl⟩ := h
  refine ⟨ps ++ [(m, text)], List.forall_mem_append.2 ⟨hps, List.forall_mem_singleton.2 hp⟩, ?_, ?_⟩
  · simp [hname]
  · rw [Decoration.assemble_append]
    rfl

/-- What stands before the second name marker spells the first step. -/
theorem truncate (h : Spells allowed name path) (hallowed : ∀ p, allowed p → IsPart p) :
    Spells allowed (Register.firstStep name) (path.take 1) := by
  obtain ⟨ps, hps, hname, rfl⟩ := h
  unfold Register.firstStep
  rw [hname]
  cases ps with
  | nil => exact ⟨[], List.forall_mem_nil _, rfl, rfl⟩
  | cons p ps =>
    obtain ⟨hp, hps⟩ := List.forall_mem_cons.1 hps
    -- the components behind the first, up to the next name and from it on
    obtain ⟨qs, later, rfl, hqs, hhead⟩ : ∃ qs later, ps = qs ++ later ∧
        (∀ q ∈ qs, q.1 ≠ nameMarker) ∧ ∀ q ∈ later.head?, q.1 = nameMarker := by
      refine ⟨_, _, (List.takeWhile_append_dropWhile (p := (·.1 != nameMarker))).symm, ?_, ?_⟩
      · exact fun q hq => by simpa using List.mem_takeWhile_imp hq
      · intro q hq
        rw [← List.find?_not_eq_head?_dropWhile] at hq
        simpa using List.find?_some hq
    obtain ⟨hqsAllowed, hlater⟩ := List.forall_mem_append.1 hps
    have htypes : ∀ q ∈ qs, q.1 = typeMarker := fun q hq =>
      (hallowed q (hqsAllowed q hq)).1.resolve_left (hqs q hq)
    have hcut := takeWhile_spelled (hallowed p hp).2
      (fun q hq => ⟨htypes q hq, (hallowed q (hqsAllowed q hq)).2⟩) hhead
    refine ⟨p :: qs, List.forall_mem_cons.2 ⟨hp, hqsAllowed⟩, ?_,
      (take_assemble (hallowed p hp) htypes hhead fun q hq => hallowed q (hlater q hq)).symm⟩
    rw [Decoration.spelled_cons]
    dsimp only
    rw [hcut, String.toList_ofList, Decoration.spelled_cons]

/-- **Every call walks the path that the current name spells.** -/
theorem answers (h : Spells allowed r.key path) (hallowed : ∀ p, allowed p → IsPart p)
    (hcall : ∀ p ∈ call.component?, allowed p) {a : Answer} {events : List Event}
    (ha : Answers r call a events r') : Spells allowed r'.key (call.walk path) := by
  cases ha with
  | begin => exact ⟨[], List.forall_mem_nil _, rfl, rfl⟩
  | @addName name =>
    have hmarker : nameMarker.toString = "$" := by decide
    have hwalk : (Call.addName name).walk path = Decoration.addComponent path nameMarker name :=
      walk_component rfl
    rw [hwalk, ← hmarker]
    exact h.add (hcall (nameMarker, name) rfl)
  | @addType type =>
    have hmarker : typeMarker.toString = "@" := by decide
    have hwalk : (Call.addType type).walk path = Decoration.addComponent path typeMarker type :=
      walk_component rfl
    rw [hwalk, ← hmarker]
    exact h.add (hcall (typeMarker, type) rfl)
  | truncate => exact h.truncate hallowed
  | _ => exact h

/-! ## A row of calls -/

theorem runs {calls : List Call} {answers : List Answer} {events : List Event}
    (hr : Register.Run r calls answers events r') (h : Spells allowed r.key path)
    (hallowed : ∀ p, allowed p → IsPart p)
    (hcalls : ∀ call ∈ calls, ∀ p ∈ call.component?, allowed p) :
    Spells allowed r'.key (calls.foldl Call.walk path) := by
  induction hr generalizing path with
  | nil => exact h
  | cons ha hr ih =>
    obtain ⟨hcall, hcalls⟩ := List.forall_mem_cons.1 hcalls
    exact ih (h.answers hallowed hcall ha) hcalls

/-- The path is read back from what spells it, and every character is a marker or belongs to a
component. -/
theorem parse_eq (h : Spells allowed name path) (hallowed : ∀ p, allowed p → IsPart p) :
    parse name = ⟨path⟩ ∧
      ∀ c ∈ name.toList, isMarker c = true ∨ ∃ p, allowed p ∧ c ∈ p.2.toList := by
  obtain ⟨ps, hps, hname, rfl⟩ := h
  have hparts : ∀ p ∈ ps, IsPart p := fun p hp => hallowed p (hps p hp)
  constructor
  · rw [← String.ofList_toList (s := name), hname, Decoration.parse_eq,
      Decoration.components_spelled hparts]
  · intro c hc
    rw [hname, spelled, List.mem_flatMap] at hc
    obtain ⟨p, hp, hc⟩ := hc
    rcases List.mem_cons.1 hc with rfl | hc
    · exact .inl (Decoration.isMarker_iff.2 (hparts p hp).1)
    · exact .inr ⟨p, hps p hp, hc⟩

/-- What spells a path is its key, which a type that opens the path lacks the first marker of. -/
theorem key_eq (h : Spells allowed name path) (hallowed : ∀ p, allowed p → IsPart p) :
    name = key ⟨path⟩ ∨ "$" ++ name = key ⟨path⟩ := by
  have hparse := (h.parse_eq hallowed).1
  obtain ⟨ps, hps, hname, -⟩ := h
  cases ps with
  | nil =>
    obtain rfl : name = "" := by rw [← String.toList_inj, hname]; rfl
    rw [← hparse]
    exact .inl rfl
  | cons p ps =>
    have hhead : name.toList.head? = some p.1 := by rw [hname, Decoration.spelled_cons]; rfl
    rcases (hallowed p (hps p List.mem_cons_self)).1 with hm | hm
    · rw [hm] at hhead
      exact .inl (by rw [← hparse, Decoration.key_parse hhead])
    · rw [hm] at hhead
      have hopened : ("$" ++ name).toList.head? = some nameMarker := by
        rw [String.toList_append]
        rfl
      exact .inr (by rw [← hparse, ← Decoration.parse_type hhead, Decoration.key_parse hopened])

end Spells

/-- The current name after a row of calls spells the path that they walk. -/
theorem currentKey_spells {calls : List Call} (hcalls : ∀ call ∈ calls, call.Plain) (j : Journal) :
    Spells (fun p => IsPart p ∧ ∃ call ∈ calls, p ∈ call.component?)
      (empty.run j calls).2.1.currentKey (pathAfter calls) := by
  obtain ⟨r, events, hr, hkeeps, -⟩ := keeps_empty.runs j calls
  rw [hkeeps.currentKey_eq]
  exact Spells.runs hr ⟨[], List.forall_mem_nil _, rfl, rfl⟩ (fun _ h => h.1)
    fun call hcall p hp => ⟨(hcalls call hcall).isPart p hp, call, hcall, hp⟩

/-- **The current name is the path, flattened, and what is read off a key is what its steps say.**
After any calls without markers in their components the steps read back from the current name are
those that the calls walk, and no character is in it that was in no component: no replacement for
undecodable bytes either. The readers of parts agree with the steps of every path without markers
in them. -/
theorem run_flattens :
    (∀ (calls : List Call) (j : Journal), (∀ call ∈ calls, call.Plain) →
      let name := (empty.run j calls).2.1.currentKey
      parse name = ⟨pathAfter calls⟩ ∧
        (name = key ⟨pathAfter calls⟩ ∨ "$" ++ name = key ⟨pathAfter calls⟩) ∧
        ∀ c ∈ name.toList, isMarker c = true ∨
          ∃ call ∈ calls, ∃ p ∈ call.component?, c ∈ p.2.toList) ∧
    ∀ (first : Segment) (rest : List Segment), (∀ s ∈ first :: rest, s.Plain) →
      let name := key ⟨first :: rest⟩
      Decoration.classPrefixLength (Text.utf8 name) = (Text.utf8 (key ⟨[first]⟩)).length ∧
        Decoration.classPart? name = some ("$" ++ first.name) ∧
        Decoration.namePart? name = (if rest = [] then none else some (key ⟨rest⟩)) ∧
        ∀ i, Decoration.typePart? name i = ((first :: rest).flatMap (·.types))[i]? := by
  constructor
  · intro calls j hcalls
    have hspells := currentKey_spells hcalls j
    obtain ⟨hparse, hchars⟩ := hspells.parse_eq fun _ h => h.1
    refine ⟨hparse, hspells.key_eq fun _ h => h.1, fun c hc => (hchars c hc).imp_right ?_⟩
    rintro ⟨p, ⟨-, call, hcall, hp⟩, hc⟩
    exact ⟨call, hcall, p, hp, hc⟩
  · intro first rest hplain
    have hfirst := hplain first List.mem_cons_self
    exact ⟨Decoration.classPrefixLength_key hfirst rest, Decoration.classPart?_key hfirst rest,
      Decoration.namePart?_key hfirst rest, Decoration.typePart?_key hplain⟩

/-- A class whose name is not ASCII gets a type after a method of it has been left. -/
theorem run_flattens_truncated :
    let calls : List Call := [.begin, .addName "Größe", .addType "int", .addName "area",
      .addType "", .truncate, .addType "ü"]
    let area : List Segment := [⟨"area", ["", "float"]⟩]
    (∀ call ∈ calls, call.Plain) ∧ (∀ s ∈ ⟨"Größe", ["int"]⟩ :: area, s.Plain) ∧
      parse (empty.run .empty calls).2.1.currentKey = ⟨[⟨"Größe", ["int", "ü"]⟩]⟩ ∧
      Decoration.namePart? (key ⟨⟨"Größe", ["int"]⟩ :: area⟩) = some "$area@@float" := by
  intro calls area
  have hcalls : ∀ call ∈ calls, call.Plain := by
    simp only [calls, Call.Plain, Call.component?, Unmarked, List.mem_cons, List.not_mem_nil,
      or_false, forall_eq_or_imp, forall_eq, forall_eq', Option.mem_def, Option.some.injEq,
      reduceCtorEq, false_imp_iff, implies_true, true_and]
    decide
  have hplain : ∀ s ∈ ⟨"Größe", ["int"]⟩ :: area, s.Plain := by
    simp only [area, Segment.Plain, Unmarked, List.mem_cons, List.not_mem_nil, or_false,
      forall_eq_or_imp, forall_eq]
    decide
  exact ⟨hcalls, hplain, (run_flattens.1 calls .empty hcalls).1,
    (run_flattens.2 _ area hplain).2.2.1.trans (by decide)⟩

end SymbolTable
end ClassIndex
