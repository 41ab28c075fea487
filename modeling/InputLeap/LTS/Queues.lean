import Mathlib.Data.List.Basic
import Mathlib.Logic.Function.Basic

/-!
# Families of first-in first-out queues

A family of queues, one for each index: messages are appended to one queue and removed from the
front of one.

## Main definitions

* `Queues.push`, `Queues.pop` : append messages to a queue, remove the first message of one.
* `Queues.All P` : every message in every queue satisfies `P`.
* `Queues.map` : apply a function to every message.
-/

namespace InputLeap

/-- A queue for each index, oldest message first. -/
abbrev Queues (σ α : Type*) := σ → List α

namespace Queues

variable {σ α γ : Type*} [DecidableEq σ]

/-- Appends the messages `ms` to the queue `s`. -/
def push (q : Queues σ α) (s : σ) (ms : List α) : Queues σ α := Function.update q s (q s ++ ms)

/-- The first message of the queue `s` and the queues without it. -/
def pop (q : Queues σ α) (s : σ) : Option (α × Queues σ α) :=
  match q s with
  | [] => none
  | m :: rest => some (m, Function.update q s rest)

/-- Every message satisfies `P`. -/
def All (P : α → Prop) (q : Queues σ α) : Prop := ∀ s, ∀ m ∈ q s, P m

/-- Applies `f` to every message. -/
def map (f : α → γ) (q : Queues σ α) : Queues σ γ := fun s => (q s).map f

variable {q q' : Queues σ α} {s s' : σ} {m : α} {P : α → Prop}

@[simp] theorem push_self (q : Queues σ α) (s : σ) (ms : List α) : q.push s ms s = q s ++ ms := by
  simp [push]

theorem push_of_ne (h : s' ≠ s) (ms : List α) : q.push s ms s' = q s' := by
  simp [push, h]

theorem pop_eq_some_iff :
    q.pop s = some (m, q') ↔ ∃ rest, q s = m :: rest ∧ q' = Function.update q s rest := by
  unfold pop
  cases hq : q s with
  | nil => simp
  | cons m' rest =>
    simp only [Option.some.injEq, Prod.mk.injEq, List.cons.injEq]
    constructor
    · rintro ⟨rfl, rfl⟩
      exact ⟨rest, ⟨rfl, rfl⟩, rfl⟩
    · rintro ⟨_, ⟨rfl, rfl⟩, rfl⟩
      exact ⟨rfl, rfl⟩

/-- Popping removes the first message of the queue. -/
theorem pop_self (h : q.pop s = some (m, q')) : q s = m :: q' s := by
  obtain ⟨rest, hq, rfl⟩ := pop_eq_some_iff.1 h
  simp [hq]

/-- Popping leaves the other queues alone. -/
theorem pop_of_ne (h : q.pop s = some (m, q')) (hs : s' ≠ s) : q' s' = q s' := by
  obtain ⟨rest, -, rfl⟩ := pop_eq_some_iff.1 h
  simp [hs]

theorem All.push (h : All P q) (s : σ) {ms : List α} (hms : ∀ m ∈ ms, P m) :
    All P (q.push s ms) := by
  intro s' m hm
  by_cases hs : s' = s
  · subst hs
    rw [push_self, List.mem_append] at hm
    exact hm.elim (h s' m) (hms m)
  · rw [push_of_ne hs] at hm
    exact h s' m hm

theorem All.head (h : All P q) (hp : q.pop s = some (m, q')) : P m :=
  h s m (by simp [pop_self hp])

theorem All.pop (h : All P q) (hp : q.pop s = some (m, q')) : All P q' := by
  intro s' m' hm
  by_cases hs : s' = s
  · subst hs
    exact h s' m' (by simp [pop_self hp, hm])
  · rw [pop_of_ne hp hs] at hm
    exact h s' m' hm

theorem map_push (f : α → γ) (q : Queues σ α) (s : σ) (ms : List α) :
    (q.push s ms).map f = (q.map f).push s (ms.map f) := by
  funext s'
  by_cases hs : s' = s
  · subst hs
    simp [map]
  · simp only [map, push_of_ne hs]

theorem map_pop (f : α → γ) (h : q.pop s = some (m, q')) :
    (q.map f).pop s = some (f m, q'.map f) := by
  refine pop_eq_some_iff.2 ⟨(q' s).map f, by simp [map, pop_self h], ?_⟩
  funext s'
  by_cases hs : s' = s
  · subst hs
    simp [map]
  · simp [map, hs, pop_of_ne h hs]

end Queues

end InputLeap
