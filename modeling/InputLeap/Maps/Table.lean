import Mathlib.Algebra.BigOperators.Ring.Finset
import Mathlib.Tactic.Ring

/-!
# Tables of a fixed size

An array of `n` elements whose index comes from elsewhere.  An access outside of the array has no
result.

## Main definitions

* `Table n α` : the elements.
* `Table.read?`, `Table.write?`, `Table.modify?` : the accesses.
* `Table.count` : at how many places a value stands.

## Main results

* `Table.read?_of_lt`, `Table.write?_of_lt`, `Table.modify?_of_lt` : the accesses inside.
* `Table.count_update` : what a write does to the number of places of a value.
* `Table.foldlM_induction`, `Table.exists_foldlM` : loops of accesses.
-/

namespace InputLeap

/-- An array of `n` elements. -/
abbrev Table (n : ℕ) (α : Type*) := Fin n → α

namespace Table

variable {n : ℕ} {α : Type*} (t : Table n α) {t' : Table n α} {i : ℕ} {k : Fin n} {v w : α}
variable {f : α → α}

/-- The element at an index. -/
def read? (i : ℕ) : Option α := if h : i < n then some (t ⟨i, h⟩) else none

/-- The array with a new element at an index. -/
def write? (i : ℕ) (v : α) : Option (Table n α) :=
  if h : i < n then some (Function.update t ⟨i, h⟩ v) else none

/-- The array with the element at an index changed. -/
def modify? (i : ℕ) (f : α → α) : Option (Table n α) :=
  if h : i < n then some (Function.update t ⟨i, h⟩ (f (t ⟨i, h⟩))) else none

/-- The number of places at which the value stands. -/
def count [DecidableEq α] (v : α) : ℕ := (Finset.univ.filter fun k => t k = v).card

variable {t}

theorem read?_of_lt (h : i < n) : t.read? i = some (t ⟨i, h⟩) := dif_pos h

theorem write?_of_lt (h : i < n) : t.write? i v = some (Function.update t ⟨i, h⟩ v) := dif_pos h

theorem modify?_of_lt (h : i < n) :
    t.modify? i f = some (Function.update t ⟨i, h⟩ (f (t ⟨i, h⟩))) := dif_pos h

theorem write?_eq_some_iff :
    t.write? i v = some t' ↔ ∃ h : i < n, t' = Function.update t ⟨i, h⟩ v := by
  simp [write?, eq_comm]

theorem modify?_eq_some_iff :
    t.modify? i f = some t' ↔ ∃ h : i < n, t' = Function.update t ⟨i, h⟩ (f (t ⟨i, h⟩)) := by
  simp [modify?, eq_comm]

/-- A write takes the place from the value that stood there. -/
theorem count_update [DecidableEq α] :
    (count (Function.update t k v) w : ℤ) =
      t.count w - (if t k = w then 1 else 0) + (if v = w then 1 else 0) := by
  have hsum (u : Table n α) : (u.count w : ℤ) = ∑ j, if u j = w then 1 else 0 :=
    Finset.natCast_card_filter _ _
  have hplace (j : Fin n) : (if Function.update t k v j = w then (1 : ℤ) else 0) =
      Function.update (fun j => if t j = w then (1 : ℤ) else 0) k (if v = w then 1 else 0) j := by
    by_cases hj : j = k
    · subst hj
      rw [Function.update_self, Function.update_self]
    · rw [Function.update_of_ne hj, Function.update_of_ne hj]
  rw [hsum, hsum, Finset.sum_congr rfl fun j _ => hplace j,
    Finset.sum_update_of_mem (Finset.mem_univ k), Finset.sdiff_singleton_eq_erase,
    ← Finset.add_sum_erase _ _ (Finset.mem_univ k)]
  ring

/-! ### Loops -/

section Loops

variable {σ β : Type*} {g : σ → β → Option σ} {R : σ → σ → Prop} {l : List β} {s s' : σ}

/-- What each turn of a loop does to the state, the loop does. -/
theorem foldlM_induction (hrefl : ∀ s, R s s) (htrans : ∀ s₁ s₂ s₃, R s₁ s₂ → R s₂ s₃ → R s₁ s₃)
    (hturn : ∀ b ∈ l, ∀ s s', g s b = some s' → R s s') (h : l.foldlM g s = some s') :
    R s s' := by
  induction l generalizing s with
  | nil =>
    obtain rfl := Option.some.inj h
    exact hrefl s
  | cons b l ih =>
    rw [List.foldlM_cons] at h
    obtain ⟨s₁, hs₁, h⟩ := Option.bind_eq_some_iff.1 h
    obtain ⟨hb, hl⟩ := List.forall_mem_cons.1 hturn
    exact htrans _ _ _ (hb s s₁ hs₁) (ih hl h)

/-- A loop has a result if each of its turns has. -/
theorem exists_foldlM (hturn : ∀ b ∈ l, ∀ s, ∃ s', g s b = some s') (s : σ) :
    ∃ s', l.foldlM g s = some s' := by
  induction l generalizing s with
  | nil => exact ⟨s, rfl⟩
  | cons b l ih =>
    obtain ⟨hb, hl⟩ := List.forall_mem_cons.1 hturn
    obtain ⟨s₁, hs₁⟩ := hb s
    obtain ⟨s', hs'⟩ := ih hl s₁
    refine ⟨s', ?_⟩
    rw [List.foldlM_cons, hs₁]
    exact hs'

end Loops

end Table

end InputLeap
