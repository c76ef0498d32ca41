/-
# What may stand between tokens

Between two tokens stand bytes that are passed over one by one and comments that have an end. A
reader finds the end of a comment byte by byte; here it is said where that end is:

| comment | its end |
| --- | --- |
| after `//` | the first line feed |
| after the opening sign of a block | the first star that a slash follows |
-/

import ClassIndex.Cursor.Token
import Mathlib.Data.List.TakeWhile

namespace ClassIndex
namespace Cursor

/-- Bytes between tokens: such as are passed over, and comments with their ends. -/
inductive Filler (passed : UInt8 → Bool) : List UInt8 → Prop where
  | nil : Filler passed []
  | byte {b : UInt8} {w : List UInt8} (hb : passed b = true) (hw : Filler passed w) :
    Filler passed (b :: w)
  | line {v w : List UInt8} (hv : 0x0a ∉ v) (hw : Filler passed w) :
    Filler passed (0x2f :: 0x2f :: (v ++ 0x0a :: w))
  | block {v w : List UInt8} (hv : ¬ [0x2a, 0x2f] <:+: v) (hw : Filler passed w) :
    Filler passed (0x2f :: 0x2a :: (v ++ 0x2a :: 0x2f :: w))

/-- A comment without an end, which takes what is left of a source. -/
inductive Unended : List UInt8 → Prop where
  | line {v : List UInt8} (hv : 0x0a ∉ v) : Unended (0x2f :: 0x2f :: v)
  | block {v : List UInt8} (hv : ¬ [0x2a, 0x2f] <:+: v) : Unended (0x2f :: 0x2a :: v)

/-- A byte that no token, comment or blank begins with. -/
def unknown (b : UInt8) : Bool :=
  !(Byte.isSpace b || b == 0x22 || b == 0x27 || b == 0x2f || Byte.isDigit b
    || Byte.beginsWord b || (single? b).isSome)

/-- A token begins with this byte where these bytes follow. -/
structure Begins (b : UInt8) (r : List UInt8) : Prop where
  space : Byte.isSpace b = false
  known : unknown b = false
  line : b = 0x2f → r.head? ≠ some 0x2f
  block : b = 0x2f → r.head? ≠ some 0x2a

/-- What follows a comment that ends with its line. -/
def afterLine (r : List UInt8) : List UInt8 := (r.dropWhile (· != 0x0a)).tail

/-- What follows a comment that ends with its block, `star` saying that the byte before was a
star; none if it does not end. -/
def afterBlock : Bool → List UInt8 → Option (List UInt8)
  | _, [] => none
  | star, b :: r =>
    if b = 0x2a then afterBlock true r
    else if b = 0x2f && star then some r
    else afterBlock false r

theorem afterLine_append {v : List UInt8} (hv : 0x0a ∉ v) (r : List UInt8) :
    afterLine (v ++ 0x0a :: r) = r := by
  have hall : ∀ b ∈ v, (b != 0x0a) = true := by
    rintro b hb
    simpa using ne_of_mem_of_not_mem hb hv
  simp [afterLine, List.dropWhile_append_of_pos hall]

/-- A line that has no end is passed over to the end of the source. -/
theorem afterLine_cases (r : List UInt8) :
    (0x0a ∉ r ∧ afterLine r = []) ∨ ∃ v, 0x0a ∉ v ∧ r = v ++ 0x0a :: afterLine r := by
  rcases hd : r.dropWhile (· != 0x0a) with _ | ⟨b, w⟩
  · left
    constructor
    · intro hmem
      simpa using List.dropWhile_eq_nil_iff.1 hd 0x0a hmem
    · simp [afterLine, hd]
  · right
    have hb : b = 0x0a := by
      have := List.head_dropWhile_not (· != 0x0a) (l := r) (by simp [hd])
      simpa [hd] using this
    refine ⟨r.takeWhile (· != 0x0a), fun hmem => ?_, ?_⟩
    · simpa using List.mem_takeWhile_imp hmem
    · have := List.takeWhile_append_dropWhile (p := (· != 0x0a)) (l := r)
      rw [hd, hb] at this
      simp [afterLine, hd, this]

/-- A byte that is no star does not open the end of a block. -/
theorem infix_cons_of_ne {b : UInt8} (hb : b ≠ 0x2a) (w v : List UInt8) :
    0x2a :: w <:+: b :: v ↔ 0x2a :: w <:+: v := by
  rw [List.infix_cons_iff, List.cons_prefix_cons]
  simp [hb.symm]

/-- After `r` a block ends for the first time where `r'` is left, `star` saying that the byte before
`r` was a star. -/
def Closes (star : Bool) (r r' : List UInt8) : Prop :=
  ∃ v, (if star then [0x2a] else []) ++ r = v ++ 0x2a :: 0x2f :: r' ∧ ¬ [0x2a, 0x2f] <:+: v

theorem not_closes_nil (star : Bool) (r' : List UInt8) : ¬ Closes star [] r' := by
  rintro ⟨v, hv, -⟩
  have := congrArg List.length hv
  cases star <;> simp at this
  omega

/-- A star counts, whatever was before it. -/
theorem closes_star {star : Bool} {r r' : List UInt8} :
    Closes star (0x2a :: r) r' ↔ Closes true r r' := by
  cases star with
  | false => rfl
  | true =>
    constructor
    · rintro ⟨_ | ⟨x, v⟩, hv, hno⟩
      · simp at hv
      · exact ⟨v, (List.cons.inj hv).2, fun h => hno (List.infix_cons h)⟩
    · rintro ⟨v, hv, hno⟩
      refine ⟨0x2a :: v, congrArg (0x2a :: ·) hv, fun h => ?_⟩
      rcases List.infix_cons_iff.1 h with hp | hi
      · obtain ⟨t, ht⟩ := (List.cons_prefix_cons.1 hp).2
        simp [← ht] at hv
      · exact hno hi

/-- A slash after a star is the end. -/
theorem closes_slash {r r' : List UInt8} : Closes true (0x2f :: r) r' ↔ r = r' := by
  constructor
  · rintro ⟨_ | ⟨x, _ | ⟨y, v⟩⟩, hv, hno⟩
    · simpa using hv
    · simp at hv
    · obtain ⟨rfl, hv₁⟩ := List.cons.inj hv
      obtain ⟨rfl, -⟩ := List.cons.inj hv₁
      exact absurd ⟨[], v, rfl⟩ hno
  · rintro rfl
    exact ⟨[], rfl, by simp⟩

/-- Any other byte is passed over. -/
theorem closes_cons {star : Bool} {b : UInt8} {r r' : List UInt8} (hb : b ≠ 0x2a)
    (hs : ¬ (b = 0x2f ∧ star = true)) : Closes star (b :: r) r' ↔ Closes false r r' := by
  cases star with
  | false =>
    constructor
    · rintro ⟨_ | ⟨x, v⟩, hv, hno⟩
      · exact absurd (List.cons.inj hv).1 hb
      · obtain ⟨rfl, hv₁⟩ := List.cons.inj hv
        exact ⟨v, hv₁, by rwa [infix_cons_of_ne hb] at hno⟩
    · rintro ⟨v, hv, hno⟩
      exact ⟨b :: v, congrArg (b :: ·) hv, by rwa [infix_cons_of_ne hb]⟩
  | true =>
    have hb' : b ≠ 0x2f := fun h => hs ⟨h, rfl⟩
    constructor
    · rintro ⟨_ | ⟨x, _ | ⟨y, v⟩⟩, hv, hno⟩
      · exact absurd (List.cons.inj (List.cons.inj hv).2).1 hb'
      · exact absurd (List.cons.inj (List.cons.inj hv).2).1 hb
      · obtain ⟨rfl, hv₁⟩ := List.cons.inj hv
        obtain ⟨rfl, hv₂⟩ := List.cons.inj hv₁
        rw [List.infix_cons_iff, infix_cons_of_ne hb] at hno
        exact ⟨v, hv₂, fun h => hno (.inr h)⟩
    · rintro ⟨v, hv, hno⟩
      refine ⟨0x2a :: b :: v, congrArg (0x2a :: b :: ·) hv, ?_⟩
      rw [List.infix_cons_iff, infix_cons_of_ne hb]
      simp [hb'.symm, hno]

/-- **A block ends at the first star that a slash follows.** -/
theorem afterBlock_eq_some {star : Bool} {r r' : List UInt8} :
    afterBlock star r = some r' ↔ Closes star r r' := by
  induction r generalizing star with
  | nil => exact ⟨nofun, fun h => absurd h (not_closes_nil star r')⟩
  | cons b r ih =>
    rw [afterBlock]
    by_cases hb : b = 0x2a
    · subst hb
      rw [if_pos rfl, ih, closes_star]
    · rw [if_neg hb]
      by_cases hs : b = 0x2f ∧ star = true
      · obtain ⟨rfl, rfl⟩ := hs
        simp [closes_slash]
      · rw [if_neg (by simpa using hs), ih, closes_cons hb hs]

/-- What stands somewhere stands somewhere for the first time. -/
theorem exists_first_infix {w l : List UInt8} (hw : w ≠ []) (h : w <:+: l) :
    ∃ v r, l = v ++ w ++ r ∧ ¬ w <:+: v := by
  obtain ⟨v, r, rfl⟩ := h
  -- an earlier occurrence has less before it
  induction hn : v.length using Nat.strongRecOn generalizing v r with
  | ind n ih =>
    by_cases hv : w <:+: v
    · obtain ⟨u, t, rfl⟩ := hv
      have hlt : u.length < n := by
        have := List.length_pos_iff.2 hw
        simp only [List.length_append] at hn
        omega
      obtain ⟨u', r', hr, hfirst⟩ := ih u.length hlt u (t ++ w ++ r) rfl
      exact ⟨u', r', by rw [← hr]; simp, hfirst⟩
    · exact ⟨v, r, rfl, hv⟩

/-- A block without an end is one that holds no star that a slash follows. -/
theorem afterBlock_eq_none {r : List UInt8} :
    afterBlock false r = none ↔ ¬ [0x2a, 0x2f] <:+: r := by
  constructor
  · intro h hin
    obtain ⟨v, r', hr, hfirst⟩ := exists_first_infix (by simp) hin
    have hcloses : Closes false r r' := ⟨v, by simpa using hr, hfirst⟩
    rw [afterBlock_eq_some.2 hcloses] at h
    cases h
  · intro hno
    rw [Option.eq_none_iff_forall_ne_some]
    intro r' hr
    obtain ⟨v, hv, -⟩ := afterBlock_eq_some.1 hr
    exact hno ⟨v, r', by simpa using hv.symm⟩

end Cursor
end ClassIndex
