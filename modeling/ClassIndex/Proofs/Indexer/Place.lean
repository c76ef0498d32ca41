/-
# From place to place

A token leads the indexer from one place among the definitions to another, and only the names of
classes and imports do more than that (`take_of_unnamed`). The rest of a definition leads behind
the definition, however its blocks are nested (`through_rest`).
-/

import ClassIndex.Indexer.Run
import ClassIndex.Proofs.Indexer.Program

namespace ClassIndex
namespace Indexer

open Token (Kind Scanned Balanced Head Rest)

/-- The place to which a token leads, unless it stops the run. -/
def Place.pass : Place → Kind → Place
  | .betweenDefinitions, .classWord => .behindClass
  | .betweenDefinitions, .importWord => .behindImport
  | .betweenDefinitions, .identifier => .inHead
  | .betweenDefinitions, .publicWord => .inHead
  | .betweenDefinitions, .privateWord => .inHead
  | .betweenDefinitions, .protectedWord => .inHead
  | .betweenDefinitions, .error => .inMalformed
  | .behindClass, .identifier => .inHead
  | .behindClass, _ => .inMalformed
  | .inHead, .openCurly => .inBlock 1
  | .inHead, .semicolon => .betweenDefinitions
  | .inHead, _ => .inHead
  | .inBlock n, .openCurly => .inBlock (n + 1)
  | .inBlock n, .closeCurly => if n ≤ 1 then .betweenDefinitions else .inBlock (n - 1)
  | .inBlock n, _ => .inBlock n
  | .inMalformed, .openCurly => .betweenDefinitions
  | .inMalformed, .closeCurly => .betweenDefinitions
  | .inMalformed, _ => .inMalformed
  | _, _ => .betweenDefinitions

/-- The inside of a definition, where tokens are only passed over. -/
inductive Place.Inside : Place → Prop
  | head : Inside .inHead
  | block (n : Nat) : Inside (.inBlock n)

variable {t : FileTree} {place place' : Place} {kind : Kind} {x y z : Indexer}

/-- Inside a definition a token does nothing but lead on. -/
theorem take_of_inside (h : place.Inside) (hk : kind ≠ .endOfInput) :
    take t place kind x = .goOn (place.pass kind) x := by
  cases h with
  | head => cases kind <;> first | rfl | exact absurd rfl hk
  | block n => cases kind <;> first | rfl | exact absurd rfl hk

/-- **A token leads where its kind says,** and at the most it is recorded as misplaced, unless it
names a class or an import. -/
theorem take_of_unnamed (hk : kind ≠ .endOfInput)
    (hclass : ¬ (place = .behindClass ∧ kind = .identifier))
    (himport : ¬ (place = .behindImport ∧ kind = .quoted)) :
    ∃ y, take t place kind x = .goOn (place.pass kind) y ∧
      (y = x ∨ ∃ f : Fault, f.code = "E030" ∧ (y = x.report f ∨ y = x.reportToken f)) := by
  cases place with
  | betweenDefinitions =>
    cases kind <;>
      first
      | exact absurd rfl hk
      | exact ⟨_, rfl, .inl rfl⟩
      | exact ⟨_, rfl, .inr ⟨_, rfl, .inr rfl⟩⟩
  | behindClass =>
    have hne : kind ≠ .identifier := fun h => hclass ⟨rfl, h⟩
    have hpass : Place.behindClass.pass kind = .inMalformed := by
      cases kind <;> first | rfl | exact absurd rfl hne
    exact ⟨_, by rw [take, nameClass, if_neg hne, hpass], .inr ⟨_, rfl, .inl rfl⟩⟩
  | behindImport =>
    have hne : kind ≠ .quoted := fun h => himport ⟨rfl, h⟩
    have hpass : Place.behindImport.pass kind = .betweenDefinitions := by cases kind <;> rfl
    exact ⟨_, by rw [take, followImport, if_neg hne, hpass], .inr ⟨_, rfl, .inl rfl⟩⟩
  | inHead => exact ⟨x, take_of_inside .head hk, .inl rfl⟩
  | inBlock n => exact ⟨x, take_of_inside (.block n) hk, .inl rfl⟩
  | inMalformed =>
    cases kind <;> first | exact absurd rfl hk | exact ⟨_, rfl, .inl rfl⟩

theorem drive_of_goOn (hn : x.nextToken = (kind, z)) (h : take t place kind z = .goOn place' y) :
    drive t place x = drive t place' y := by
  rw [drive]
  split
  · rename_i heq
    rw [hn, h] at heq
    cases heq
    rfl
  · rename_i heq
    rw [hn, h] at heq
    cases heq

theorem drive_of_stop {result : Except IndexError Unit} (hn : x.nextToken = (kind, z))
    (h : take t place kind z = .stop result y) : drive t place x = (result, y) := by
  rw [drive]
  split
  · rename_i heq
    rw [hn, h] at heq
    cases heq
  · rename_i heq
    rw [hn, h] at heq
    cases heq
    rfl

/-- What a run answers where it has come to the end of the input, or has stopped. -/
def finish (path : String) : Except IndexError Unit × Indexer → Except IndexError Summary × Indexer
  | (.ok (), z) => (.ok z.summary, z.add (.note (finishNote path z.summary)))
  | (.error e, z) => (.error e, z)

theorem run_of_openFile {path : String}
    (h : (x.add (.note (startNote path))).openFile t path = (.ok (), y)) :
    run t path x = finish path (drive t .betweenDefinitions y) := by
  rw [run, h]
  dsimp only
  rcases drive t .betweenDefinitions y with ⟨_ | _, z⟩ <;> rfl

/-! ## Through the rest of a definition -/

namespace Place

/-- Tokens lead from one place to another, and before each of them a definition is open. -/
inductive Through : Place → List Scanned → Place → Prop
  | nil (place : Place) : Through place [] place
  | cons {place place' : Place} {u : Scanned} {us : List Scanned} : place.Inside →
      Through (place.pass u.kind) us place' → Through place (u :: us) place'

variable {place₁ place₂ place₃ : Place} {us vs : List Scanned}

theorem Through.append (h : Through place₁ us place₂) (h' : Through place₂ vs place₃) :
    Through place₁ (us ++ vs) place₃ := by
  induction h with
  | nil => exact h'
  | cons hin _ ih => exact .cons hin (ih h')

/-- A token that is no brace leaves the block as it is. -/
theorem pass_block_of_ne {kind : Kind} (n : Nat) (ho : kind ≠ .openCurly)
    (hc : kind ≠ .closeCurly) : (Place.inBlock n).pass kind = .inBlock n := by
  cases kind <;> first | rfl | exact absurd rfl ho | exact absurd rfl hc

/-- Balanced tokens lead back to the depth at which they begin. -/
theorem through_balanced (h : Balanced us) {n : Nat} (hn : 1 ≤ n) :
    Through (.inBlock n) us (.inBlock n) := by
  induction h generalizing n with
  | nil => exact .nil _
  | @other u us ho hc _ ih =>
    refine .cons (.block n) ?_
    rw [pass_block_of_ne n ho hc]
    exact ih hn
  | @block o c inner us ho hc _ _ ihinner ih =>
    refine .cons (.block n) ?_
    have hopen : (Place.inBlock n).pass o.kind = .inBlock (n + 1) := by rw [ho]; rfl
    have hclose : (Place.inBlock (n + 1)).pass c.kind = .inBlock n := by
      rw [hc]
      exact if_neg (by omega)
    rw [hopen]
    refine (ihinner (by omega)).append (.cons (.block (n + 1)) ?_)
    rw [hclose]
    exact ih hn

theorem through_head (h : Head us) : Through .inHead us .inHead := by
  induction us with
  | nil => exact .nil _
  | cons u us ih =>
    obtain ⟨ho, hs⟩ := h u List.mem_cons_self
    refine .cons .head ?_
    have hpass : Place.inHead.pass u.kind = .inHead := by
      generalize u.kind = kind at ho hs
      cases kind <;> first | rfl | exact absurd rfl ho | exact absurd rfl hs
    rw [hpass]
    exact ih fun v hv => h v (List.mem_cons_of_mem _ hv)

/-- **The rest of a definition leads behind the definition.** -/
theorem through_rest (h : Rest us) : Through .inHead us .betweenDefinitions := by
  cases h with
  | @bare head s hhead hs =>
    refine (through_head hhead).append (.cons .head ?_)
    rw [hs]
    exact .nil _
  | @block head body o c hhead ho hbody hc =>
    refine (through_head hhead).append (.cons .head ?_)
    rw [ho]
    refine (through_balanced hbody (Nat.le_refl 1)).append (.cons (.block 1) ?_)
    rw [hc]
    exact .nil _

end Place

end Indexer
end ClassIndex
