/-
# The loops of the readers

Every loop of a reader passes over at least one byte in each round that goes on. So it ends after
at most one round more than there are bytes left, with the result of the reader (`loopsEnd`).

| loop | a round goes on |
| --- | --- |
| over a class of bytes | behind a byte of the class |
| over a line | behind a byte other than the line feed |
| over a block comment | behind a byte that does not end the block |
| over blanks and comments | behind a comment that ended |
| over a string | behind a byte, an escape, or the comma and the quote of a further segment |
| to a token | behind a comment or an unknown byte |
-/

import ClassIndex.Cursor.Token
import ClassIndex.Proofs.Loop

namespace ClassIndex
namespace Cursor

/-- A round of passing over a class of bytes. -/
def skipWhileRound (p : UInt8 → Bool) (c : Cursor) : Cursor ⊕ Cursor :=
  match c.next with
  | (some b, d) => if p b then .inl d else .inr (d.giveBack (some b))
  | (none, d) => .inr d

/-- A round of keeping a class of bytes. -/
def keepWhileRound (p : UInt8 → Bool) (c : Cursor) : Cursor ⊕ Cursor :=
  match c.next with
  | (some b, d) => if p b then .inl (d.keep b) else .inr (d.giveBack (some b))
  | (none, d) => .inr d

/-- A round of passing over a line. -/
def skipLineRound (c : Cursor) : Cursor ⊕ Cursor :=
  match c.next with
  | (some b, d) => if b = 0x0a then .inr d else .inl d
  | (none, d) => .inr d

/-- A round of passing over a block comment. -/
def skipBlockRound : Bool × Cursor → (Bool × Cursor) ⊕ (Bool × Cursor)
  | (star, c) =>
    match c.next with
    | (some b, d) =>
      if b = 0x2a then .inl (true, d)
      else if b = 0x2f && star then .inr (true, d)
      else .inl (false, d)
    | (none, d) => .inr (false, d.report .unterminatedComment)

/-- A round of passing over blanks and comments. -/
def skipTriviaRound (c : Cursor) : Cursor ⊕ Cursor :=
  match c.skipSpace.next with
  | (some b, d) =>
    if b = 0x2f then
      match d.next with
      | (some b', e) =>
        if b' = 0x2f then .inl e.skipLine
        else if b' = 0x2a then
          match e.skipBlock false with
          | (true, f) => .inl f
          | (false, f) => .inr f
        else .inr ((e.giveBack (some b')).giveBack (some b))
      | (none, e) => .inr (e.giveBack (some b))
    else .inr (d.giveBack (some b))
  | (none, d) => .inr d

/-- A round of reading a string. -/
def quotedRound (quote : UInt8) (c : Cursor) : Cursor ⊕ (Token.Kind × Cursor) :=
  match c.next with
  | (some b, d) =>
    if b = 0x0a then .inr (.error, (d.forget.giveBack (some b)).report .lineBreakInString)
    else if b = quote then
      match d.goesOn quote with
      | (true, e) => .inl e
      | (false, e) => .inr (.quoted, e)
    else if b = 0x5c && quote = 0x22 then
      match d.escape with
      | (true, e) => .inl e
      | (false, e) => .inr (.error, e.report .unterminatedString)
    else .inl (d.keep b)
  | (none, d) => .inr (.error, d.report .unterminatedString)

/-- A round of the search for a token. -/
def tokenRound (c : Cursor) : Cursor ⊕ (Option Token.Kind × Cursor) :=
  match c.begin.next with
  | (some b, d) =>
    match d.piece b with
    | (some kind, e) => .inr (some kind, e)
    | (none, e) => .inl e
  | (none, d) => .inr (none, d)

/-- From a cursor on, every loop ends in at most one round more than there are bytes left. -/
structure LoopsEnd (c : Cursor) : Prop where
  skipWhile (p : UInt8 → Bool) :
    EndsWithin (skipWhileRound p) (c.remaining + 1) c (c.skipWhile p)
  keepWhile (p : UInt8 → Bool) :
    EndsWithin (keepWhileRound p) (c.remaining + 1) c (c.keepWhile p)
  skipLine : EndsWithin skipLineRound (c.remaining + 1) c c.skipLine
  skipBlock (star : Bool) :
    EndsWithin skipBlockRound (c.remaining + 1) (star, c) (c.skipBlock star)
  skipTrivia : EndsWithin skipTriviaRound (c.remaining + 1) c c.skipTrivia
  quoted (quote : UInt8) : EndsWithin (quotedRound quote) (c.remaining + 1) c (c.quoted quote)
  token : EndsWithin tokenRound (c.remaining + 1) c c.token

variable {c d : Cursor}

theorem skipWhileRound_falls {p : UInt8 → Bool} (h : skipWhileRound p c = .inl d) :
    d.remaining < c.remaining := by
  unfold skipWhileRound at h
  split at h
  · rename_i b e hn
    have := remaining_next_some hn
    split at h
    · cases h; omega
    · cases h
  · cases h

theorem keepWhileRound_falls {p : UInt8 → Bool} (h : keepWhileRound p c = .inl d) :
    d.remaining < c.remaining := by
  unfold keepWhileRound at h
  split at h
  · rename_i b e hn
    have := remaining_next_some hn
    split at h
    · cases h; rw [remaining_keep]; omega
    · cases h
  · cases h

theorem skipLineRound_falls (h : skipLineRound c = .inl d) : d.remaining < c.remaining := by
  unfold skipLineRound at h
  split at h
  · rename_i b e hn
    have := remaining_next_some hn
    split at h
    · cases h
    · cases h; omega
  · cases h

theorem skipBlockRound_falls {p q : Bool × Cursor} (h : skipBlockRound p = .inl q) :
    q.2.remaining < p.2.remaining := by
  obtain ⟨star, c⟩ := p
  unfold skipBlockRound at h
  dsimp only at h ⊢
  split at h
  · rename_i b e hn
    have := remaining_next_some hn
    split at h
    · cases h; dsimp only; omega
    · split at h
      · cases h
      · cases h; dsimp only; omega
  · cases h

theorem skipTriviaRound_falls (h : skipTriviaRound c = .inl d) : d.remaining < c.remaining := by
  have hspace := remaining_skipSpace c
  unfold skipTriviaRound at h
  split at h
  · rename_i b e hn
    have := remaining_next_some hn
    split at h
    · split at h
      · rename_i b' f hn'
        have := remaining_next_some hn'
        split at h
        · cases h
          have := remaining_skipLine f
          omega
        · split at h
          · have hb := remaining_skipBlock false f
            split at h
            · rename_i g hg
              rw [hg] at hb
              cases h
              simp only at hb
              omega
            · cases h
          · cases h
      · cases h
    · cases h
  · cases h

theorem quotedRound_falls {quote : UInt8} (h : quotedRound quote c = .inl d) :
    d.remaining < c.remaining := by
  unfold quotedRound at h
  split at h
  · rename_i b e hn
    have := remaining_next_some hn
    split at h
    · cases h
    · split at h
      · have hg := remaining_goesOn quote e
        split at h
        · rename_i f hf
          rw [hf] at hg
          cases h
          simp only at hg
          omega
        · cases h
      · split at h
        · have he := remaining_escape e
          split at h
          · rename_i f hf
            rw [hf] at he
            cases h
            simp only at he
            omega
          · cases h
        · cases h
          rw [remaining_keep]
          omega
  · cases h

theorem tokenRound_falls (h : tokenRound c = .inl d) : d.remaining < c.remaining := by
  have hbegin := remaining_begin c
  unfold tokenRound at h
  split at h
  · rename_i b e hn
    have := remaining_next_some hn
    have hp := remaining_piece b e
    split at h
    · cases h
    · rename_i f hf
      rw [hf] at hp
      cases h
      simp only at hp
      omega
  · cases h

/-- **Every loop of a reader ends,** wherever the reader starts. -/
theorem loopsEnd (c : Cursor) : c.LoopsEnd where
  skipWhile p := by
    refine endsWithin_of_falls remaining (fun c => ?_) skipWhileRound_falls c
    rw [skipWhile_eq, skipWhileRound]
    rcases c.next with ⟨_ | b, d⟩
    · rfl
    · dsimp only; split <;> rfl
  keepWhile p := by
    refine endsWithin_of_falls remaining (fun c => ?_) keepWhileRound_falls c
    rw [keepWhile_eq, keepWhileRound]
    rcases c.next with ⟨_ | b, d⟩
    · rfl
    · dsimp only; split <;> rfl
  skipLine := by
    refine endsWithin_of_falls remaining (fun c => ?_) skipLineRound_falls c
    rw [skipLine_eq, skipLineRound]
    rcases c.next with ⟨_ | b, d⟩
    · rfl
    · dsimp only; split <;> rfl
  skipBlock star := by
    refine endsWithin_of_falls (f := fun p => p.2.skipBlock p.1) (fun p => p.2.remaining)
      (fun p => ?_) skipBlockRound_falls (star, c)
    obtain ⟨star, c⟩ := p
    dsimp only
    rw [skipBlock_eq, skipBlockRound]
    rcases c.next with ⟨_ | b, d⟩
    · rfl
    · dsimp only; split
      · rfl
      · split <;> rfl
  skipTrivia := by
    refine endsWithin_of_falls remaining (fun c => ?_) skipTriviaRound_falls c
    rw [skipTrivia_eq, skipTriviaRound]
    rcases c.skipSpace.next with ⟨_ | b, d⟩
    · rfl
    · dsimp only; split
      · rcases d.next with ⟨_ | b', e⟩
        · rfl
        · dsimp only; split
          · rfl
          · split
            · rcases e.skipBlock false with ⟨_ | _, f⟩ <;> rfl
            · rfl
      · rfl
  quoted quote := by
    refine endsWithin_of_falls remaining (fun c => ?_) quotedRound_falls c
    rw [quoted_eq, quotedRound]
    rcases c.next with ⟨_ | b, d⟩
    · rfl
    · dsimp only; split
      · rfl
      · split
        · rcases d.goesOn quote with ⟨_ | _, e⟩ <;> rfl
        · split
          · rcases d.escape with ⟨_ | _, e⟩ <;> rfl
          · rfl
  token := by
    refine endsWithin_of_falls remaining (fun c => ?_) tokenRound_falls c
    rw [token_eq, tokenRound]
    rcases c.begin.next with ⟨_ | b, d⟩
    · rfl
    · dsimp only
      rcases d.piece b with ⟨_ | kind, e⟩ <;> rfl

end Cursor
end ClassIndex
