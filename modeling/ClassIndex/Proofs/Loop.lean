/-
# Loops

A loop goes from state to state, round by round, until a round has a result. Where a measure falls
with every round that goes on, the loop ends after at most one round more than the measure says,
and its result is that of every function that satisfies the equation of the loop
(`endsWithin_of_falls`).
-/

namespace ClassIndex

variable {σ ρ : Type} {round : σ → σ ⊕ ρ} {s : σ} {r : ρ} {f : σ → ρ} {n m : Nat}

/-- The result of a loop, if it has one after at most so many rounds. -/
def loop (round : σ → σ ⊕ ρ) : Nat → σ → Option ρ
  | 0, _ => none
  | n + 1, s =>
    match round s with
    | .inl s' => loop round n s'
    | .inr r => some r

/-- A loop comes from a state to a result in at most so many rounds. -/
def EndsWithin (round : σ → σ ⊕ ρ) (bound : Nat) (s : σ) (r : ρ) : Prop :=
  loop round bound s = some r

theorem EndsWithin.mono (h : EndsWithin round n s r) (hnm : n ≤ m) : EndsWithin round m s r := by
  induction n generalizing m s with
  | zero => cases h
  | succ n ih =>
    obtain ⟨m, rfl⟩ : ∃ k, m = k + 1 := ⟨m - 1, by omega⟩
    unfold EndsWithin loop at h ⊢
    split at h
    · exact ih h (Nat.le_of_succ_le_succ hnm)
    · exact h

/-- **A loop ends if a measure falls with every round that goes on.** -/
theorem endsWithin_of_falls (μ : σ → Nat) (hf : ∀ s, f s = (round s).elim f id)
    (hμ : ∀ {s s'}, round s = .inl s' → μ s' < μ s) (s : σ) :
    EndsWithin round (μ s + 1) s (f s) := by
  induction hn : μ s using Nat.strongRecOn generalizing s with
  | ind n ih =>
    unfold EndsWithin loop
    rw [hf]
    split
    · rename_i s' hr
      have hlt : μ s' < n := hn ▸ hμ hr
      rw [hr]
      exact (ih _ hlt s' rfl).mono hlt
    · rename_i r hr
      rw [hr]
      rfl

/-- What satisfies the equation of a loop gives its results. -/
theorem eq_of_endsWithin (hf : ∀ s, f s = (round s).elim f id) (h : EndsWithin round n s r) :
    f s = r := by
  induction n generalizing s with
  | zero => cases h
  | succ n ih =>
    unfold EndsWithin loop at h
    rw [hf]
    split at h
    · rename_i hr
      rw [hr]
      exact ih h
    · rename_i hr
      cases h
      rw [hr]
      rfl

/-- The states to which the rounds of a loop lead. -/
inductive Visits (round : σ → σ ⊕ ρ) (s : σ) : σ → Prop
  | start : Visits round s s
  | next {s' s'' : σ} : Visits round s s' → round s' = .inl s'' → Visits round s s''

/-- A loop that ends goes on from its first round, or has its result there. -/
theorem EndsWithin.round_cases (h : EndsWithin round n s r) :
    (∃ s', round s = .inl s' ∧ EndsWithin round n s' r) ∨ round s = .inr r := by
  cases n with
  | zero => cases h
  | succ n =>
    unfold EndsWithin loop at h
    split at h
    · rename_i s' hround
      have hends : EndsWithin round n s' r := h
      exact .inl ⟨s', hround, hends.mono (Nat.le_succ n)⟩
    · rename_i hround
      cases h
      exact .inr hround

/-- From every state on its way, a loop comes to its result. -/
theorem EndsWithin.of_visits {p : σ} (h : EndsWithin round n s r) (hvisits : Visits round s p) :
    EndsWithin round n p r := by
  induction hvisits with
  | start => exact h
  | next _ hround ih =>
    obtain ⟨s', hgo, hends⟩ | hstop := ih.round_cases
    · cases hgo.symm.trans hround
      exact hends
    · cases hstop.symm.trans hround

/-- **What every round keeps, a loop keeps,** up to the round that has the result. -/
theorem EndsWithin.induct {I : σ → Prop} {Q : ρ → Prop} (h : EndsWithin round n s r) (hs : I s)
    (hgo : ∀ {p q}, Visits round s p → I p → round p = .inl q → I q)
    (hstop : ∀ {p q}, Visits round s p → I p → round p = .inr q → Q q) : Q r := by
  suffices hvisited : ∀ p, Visits round s p → I p → EndsWithin round n p r → Q r from
    hvisited s .start hs h
  clear h hs
  induction n with
  | zero => exact fun _ _ _ h => nomatch h
  | succ n ih =>
    intro p hvisits hp h
    unfold EndsWithin loop at h
    split at h
    · rename_i q hround
      exact ih q (hvisits.next hround) (hgo hvisits hp hround) h
    · rename_i q hround
      cases h
      exact hstop hvisits hp hround

/-- **Loops whose rounds keep pace end together,** with results that are related as their last
rounds leave them. -/
theorem EndsWithin.related {σ' ρ' : Type} {round' : σ' → σ' ⊕ ρ'} {R : σ → σ' → Prop}
    {Q : ρ → ρ' → Prop} {s' : σ'} (h : EndsWithin round n s r) (hs : R s s')
    (hround : ∀ {p p'}, R p p' →
      (∃ q q', round p = .inl q ∧ round' p' = .inl q' ∧ R q q') ∨
        ∃ a a', round p = .inr a ∧ round' p' = .inr a' ∧ Q a a') :
    ∃ r', EndsWithin round' n s' r' ∧ Q r r' := by
  induction n generalizing s s' with
  | zero => cases h
  | succ n ih =>
    unfold EndsWithin loop at h ⊢
    rcases hround hs with ⟨q, q', hgo, hgo', hq⟩ | ⟨a, a', hstop, hstop', ha⟩
    · rw [hgo] at h
      rw [hgo']
      exact ih h hq
    · rw [hstop] at h
      rw [hstop']
      cases h
      exact ⟨a', rfl, ha⟩

end ClassIndex
