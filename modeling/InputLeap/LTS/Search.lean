import Mathlib.Data.Fintype.Pigeonhole
import Mathlib.Data.Nat.Notation
import Mathlib.Logic.Function.Iterate
import Mathlib.Logic.Relation
import Mathlib.Tactic.Choose
import Mathlib.Tactic.Set

/-!
# Searches that go on from one state to the next

A search looks at a state and either has its result or goes on from another state.  It need not
end; `Search.run` gives it a number of steps.

## Main definitions

* `Search.run next n s` : the result of the search from `s`, if it takes at most `n` steps.
* `Search.Endless next path` : the search goes along the path and never has a result.
* `Search.GoesOn next` : the search goes on from one state to the other.

## Main results

* `exists_run_iff` : the search ends exactly if it does not go along an endless path.
* `exists_run_iff_not_cycle` : among finitely many states the search ends exactly if it does not
  come to a cycle.
* `run_unique` : the number of steps does not matter for the result.
-/

namespace InputLeap

namespace Search

variable {σ ρ : Type*} (next : σ → σ ⊕ ρ)

/-- The result of the search from a state, if it takes at most the given number of steps. -/
def run : ℕ → σ → Option ρ
  | 0, _ => none
  | n + 1, s =>
    match next s with
    | .inl s' => run n s'
    | .inr r => some r

/-- The search goes from each state of the path to the one after it. -/
def Endless (path : ℕ → σ) : Prop := ∀ k, next (path k) = .inl (path (k + 1))

variable {next} {s s' : σ} {r r' : ρ} {n m : ℕ} {path : ℕ → σ}

theorem run_succ_of_inl (h : next s = .inl s') : run next (n + 1) s = run next n s' := by
  simp only [run, h]

theorem run_succ_of_inr (h : next s = .inr r) : run next (n + 1) s = some r := by
  simp only [run, h]

/-- More steps do not change the result. -/
theorem run_mono (h : run next n s = some r) (hle : n ≤ m) : run next m s = some r := by
  induction n generalizing s m with
  | zero => cases h
  | succ n ih =>
    obtain ⟨m, rfl⟩ := Nat.exists_eq_add_of_lt (Nat.lt_of_lt_of_le n.succ_pos hle)
    rw [Nat.zero_add] at hle ⊢
    cases hnext : next s with
    | inl s' =>
      rw [run_succ_of_inl hnext] at h ⊢
      exact ih h (Nat.le_of_succ_le_succ hle)
    | inr r' =>
      rw [run_succ_of_inr hnext] at h ⊢
      exact h

theorem run_unique (h : run next n s = some r) (h' : run next m s = some r') : r = r' := by
  have hn := run_mono h (Nat.le_max_left n m)
  have hm := run_mono h' (Nat.le_max_right n m)
  exact Option.some.inj (hn.symm.trans hm)

/-- Along an endless path there is no result. -/
theorem Endless.run_eq_none (h : Endless next path) (n k : ℕ) : run next n (path k) = none := by
  induction n generalizing k with
  | zero => rfl
  | succ n ih => rw [run_succ_of_inl (h k), ih]

/-- A search without result goes on to one without result. -/
theorem next_of_no_run (h : ∀ n, run next n s = none) :
    ∃ s', next s = .inl s' ∧ ∀ n, run next n s' = none := by
  cases hnext : next s with
  | inl s' => exact ⟨s', rfl, fun n => (run_succ_of_inl hnext).symm.trans (h (n + 1))⟩
  | inr r =>
    have h₁ := h 1
    rw [run_succ_of_inr hnext] at h₁
    cases h₁

/-- **The search ends** exactly if it does not go along an endless path. -/
theorem exists_run_iff :
    (∃ n r, run next n s = some r) ↔ ¬∃ path, path 0 = s ∧ Endless next path := by
  constructor
  · rintro ⟨n, r, hr⟩ ⟨path, rfl, hpath⟩
    rw [hpath.run_eq_none] at hr
    cases hr
  · intro hend
    by_contra hno
    have hnone (n : ℕ) : run next n s = none :=
      Option.eq_none_iff_forall_ne_some.2 fun r hr => hno ⟨n, r, hr⟩
    -- The states that are met never have a result.
    let Lost := { s // ∀ n, run next n s = none }
    have hnext (l : Lost) : ∃ l' : Lost, next l.1 = .inl l'.1 := by
      obtain ⟨s', hs', hnone'⟩ := next_of_no_run l.2
      exact ⟨⟨s', hnone'⟩, hs'⟩
    choose go hgo using hnext
    set lost : ℕ → Lost := fun k => go^[k] ⟨s, hnone⟩
    refine hend ⟨fun k => (lost k).1, rfl, fun k => ?_⟩
    have hstep : lost (k + 1) = go (lost k) := Function.iterate_succ_apply' go k _
    show next (lost k).1 = .inl (lost (k + 1)).1
    rw [hstep]
    exact hgo (lost k)

/-! ### Cycles -/

variable (next) in
/-- The search goes on from the first state to the second. -/
def GoesOn (s s' : σ) : Prop := next s = .inl s'

/-- A search with a result has it in fewer steps from a state further on. -/
theorem run_of_transGen (h : Relation.TransGen (GoesOn next) s s') (hr : run next n s = some r) :
    ∃ m < n, run next m s' = some r := by
  have hstep {s s' : σ} {n : ℕ} (h : GoesOn next s s') (hr : run next n s = some r) :
      ∃ m < n, run next m s' = some r := by
    cases n with
    | zero => cases hr
    | succ n =>
      rw [run_succ_of_inl h] at hr
      exact ⟨n, n.lt_succ_self, hr⟩
  induction h with
  | single h => exact hstep h hr
  | tail _ h ih =>
    obtain ⟨m, hm, hr⟩ := ih
    obtain ⟨k, hk, hr⟩ := hstep h hr
    exact ⟨k, hk.trans hm, hr⟩

/-- On a cycle there is no result. -/
theorem run_eq_none_of_cycle (h : Relation.TransGen (GoesOn next) s s) (n : ℕ) :
    run next n s = none := by
  induction n using Nat.strong_induction_on with
  | _ n ih =>
    refine Option.eq_none_iff_forall_ne_some.2 fun r hr => ?_
    obtain ⟨m, hm, hr'⟩ := run_of_transGen h hr
    rw [ih m hm] at hr'
    cases hr'

theorem Endless.transGen (h : Endless next path) {i j : ℕ} (hij : i < j) :
    Relation.TransGen (GoesOn next) (path i) (path j) := by
  induction j, hij using Nat.le_induction with
  | base => exact .single (h i)
  | succ j _ ih => exact ih.tail (h j)

/-- **Among finitely many states the search ends** exactly if it does not come to a cycle. -/
theorem exists_run_iff_not_cycle {states : Set σ} (hfin : states.Finite)
    (hmem : ∀ s s', GoesOn next s s' → s' ∈ states) :
    (∃ n r, run next n s = some r) ↔
      ¬∃ s', Relation.ReflTransGen (GoesOn next) s s' ∧ Relation.TransGen (GoesOn next) s' s' := by
  constructor
  · -- a run passes through every state that is reached, and a cycle has no run
    rintro ⟨n, r, hr⟩ ⟨s', hreach, hcycle⟩
    obtain ⟨m, hr'⟩ : ∃ m, run next m s' = some r := by
      obtain rfl | hreach := Relation.reflTransGen_iff_eq_or_transGen.1 hreach
      · exact ⟨n, hr⟩
      · obtain ⟨m, -, hr'⟩ := run_of_transGen hreach hr
        exact ⟨m, hr'⟩
    rw [run_eq_none_of_cycle hcycle] at hr'
    cases hr'
  · intro hno
    refine exists_run_iff.2 ?_
    rintro ⟨path, rfl, hpath⟩
    -- the path comes to one of the finitely many states twice
    have : Finite states := hfin
    obtain ⟨i, j, hij, heq⟩ := Finite.exists_ne_map_eq_of_infinite
      fun k => (⟨path (k + 1), hmem _ _ (hpath k)⟩ : states)
    have heq : path (i + 1) = path (j + 1) := congrArg Subtype.val heq
    refine hno ⟨path (i + 1), (hpath.transGen i.succ_pos).to_reflTransGen, ?_⟩
    rcases Nat.lt_or_gt_of_ne hij with hlt | hlt
    · have hcycle := hpath.transGen (Nat.succ_lt_succ hlt)
      rwa [← heq] at hcycle
    · have hcycle := hpath.transGen (Nat.succ_lt_succ hlt)
      rwa [← heq] at hcycle

end Search

end InputLeap
