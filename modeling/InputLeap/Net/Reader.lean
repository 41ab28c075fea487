import InputLeap.Net.Slice

/-!
# Readers

A list is read from its start on, by functions that give what they read and what is left; or it is
read by position, by functions that give what they read and the position behind it.  A reader by
position has no result when it looks at an element outside of the list, which is not the same as
refusing to read.

## Main definitions

* `ReadsAs` : a reader by position stays inside of the list and reads what a reader of what is left
  reads.

## Main results

* `ReadsAs.bind`, `ReadsAs.pure`, `ReadsAs.refuse`, `ReadsAs.ite`, `ReadsAs.take` : the relation for
  readers that are put together alike.
* `ReadsAs.run_bind` : programs that go on alike with what was read have the same result.
-/

namespace InputLeap

variable {σ α β : Type} {l : List σ} {q : ℕ → OptionT Option (α × ℕ)}
variable {p : List σ → Option (α × List σ)}

/-- From every position inside of the list, the reader by position reads what the other one reads of
the rest of the list, up to where that one leaves off. -/
def ReadsAs (l : List σ) (q : ℕ → OptionT Option (α × ℕ)) (p : List σ → Option (α × List σ)) :
    Prop :=
  ∀ pos ≤ l.length, ∃ r, (q pos).run = some r ∧
    (∀ a pos', r = some (a, pos') → pos' ≤ l.length) ∧
    p (l.drop pos) = r.map fun r => (r.1, l.drop r.2)

namespace ReadsAs

/-- One reader after the other. -/
theorem bind {qf : α × ℕ → OptionT Option (β × ℕ)} {pf : α × List σ → Option (β × List σ)}
    (h : ReadsAs l q p) (hf : ∀ a, ReadsAs l (fun pos => qf (a, pos)) fun s => pf (a, s)) :
    ReadsAs l (fun pos => q pos >>= qf) fun s => p s >>= pf := by
  intro pos hpos
  obtain ⟨r, hq, hinside, hp⟩ := h pos hpos
  cases r with
  | none =>
    refine ⟨none, ?_, nofun, ?_⟩
    · rw [OptionT.run_bind, hq]
      rfl
    · dsimp only
      rw [hp]
      rfl
  | some r =>
    obtain ⟨a, pos'⟩ := r
    obtain ⟨r', hq', hinside', hp'⟩ := hf a pos' (hinside a pos' rfl)
    refine ⟨r', ?_, hinside', ?_⟩
    · rw [OptionT.run_bind, hq]
      exact hq'
    · dsimp only
      rw [hp]
      exact hp'

/-- Nothing is read. -/
theorem pure (a : α) : ReadsAs l (fun pos => Pure.pure (a, pos)) fun s => some (a, s) := by
  intro pos hpos
  refine ⟨some (a, pos), rfl, ?_, rfl⟩
  rintro _ _ h
  cases h
  exact hpos

/-- Reading is refused. -/
theorem refuse : ReadsAs l (fun _ => (failure : OptionT Option (α × ℕ))) fun _ => none :=
  fun _ _ => ⟨none, rfl, nofun, rfl⟩

/-- A condition that does not depend on where the readers are. -/
theorem ite {q' : ℕ → OptionT Option (α × ℕ)} {p' : List σ → Option (α × List σ)} {c : Prop}
    [Decidable c] (h : ReadsAs l q p) (h' : ReadsAs l q' p') :
    ReadsAs l (fun pos => if c then q pos else q' pos) fun s => if c then p s else p' s := by
  intro pos hpos
  dsimp only
  split_ifs
  · exact h pos hpos
  · exact h' pos hpos

/-- A reader that takes as many elements as there should be, and refuses if there are fewer. -/
theorem take (n : ℕ) (f : List σ → α) : ReadsAs l
    (fun pos => if pos ≤ l.length ∧ l.length - pos < n then failure
      else do
        let s ← OptionT.lift (slice? l pos n)
        Pure.pure (f s, pos + n))
    fun s => if s.length < n then none else some (f (s.take n), s.drop n) := by
  intro pos hpos
  dsimp only
  rw [List.length_drop]
  by_cases hshort : l.length - pos < n
  · rw [if_pos ⟨hpos, hshort⟩, if_pos hshort]
    exact refuse pos hpos
  · rw [if_neg fun h => hshort h.2, if_neg hshort]
    refine ⟨some (f ((l.drop pos).take n), pos + n), ?_, ?_, ?_⟩
    · rw [slice?_eq_ite, if_neg (by rwa [List.length_drop])]
      rfl
    · rintro _ _ h
      cases h
      omega
    · rw [List.drop_drop]
      rfl

/-- What is done with what was read. -/
theorem run_bind {f : α × ℕ → OptionT Option β} {g : α × List σ → Option β} {pos : ℕ}
    (h : ReadsAs l q p) (hpos : pos ≤ l.length)
    (hfg : ∀ a, ∀ pos ≤ l.length, (f (a, pos)).run = some (g (a, l.drop pos))) :
    (q pos >>= f).run = some ((p (l.drop pos)).bind g) := by
  obtain ⟨r, hq, hinside, hp⟩ := h pos hpos
  rw [OptionT.run_bind, hq, hp]
  cases r with
  | none => rfl
  | some r => exact hfg r.1 r.2 (hinside r.1 r.2 rfl)

end ReadsAs

end InputLeap
