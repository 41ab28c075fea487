import Mathlib.Algebra.Order.Ring.Nat
import Mathlib.Data.List.TakeDrop

/-!
# Parts of a list by position

## Main definitions

* `slice?` : some elements from a position on, if all of them are inside of the list.

## Main results

* `slice?_eq_some_iff` : what is read is a prefix of the elements from the position on.
* `slice?_of_drop` : such a prefix is read.
-/

namespace InputLeap

variable {α : Type*} {l s : List α} {i n : ℕ}

/-- The `n` elements from a position on; there are none if one of them is outside of the list. -/
def slice? (l : List α) (i n : ℕ) : Option (List α) :=
  if i + n ≤ l.length ∨ n = 0 then some ((l.drop i).take n) else none

theorem slice?_eq_ite :
    slice? l i n = if (l.drop i).length < n then none else some ((l.drop i).take n) := by
  rw [slice?, List.length_drop]
  split_ifs
  · omega
  · rfl
  · rfl
  · omega

theorem slice?_eq_some_iff :
    slice? l i n = some s ↔ s.length = n ∧ l.drop i = s ++ l.drop (i + n) := by
  rw [slice?]
  constructor
  · intro h
    split_ifs at h with hinside
    obtain rfl := Option.some.inj h
    refine ⟨?_, ?_⟩
    · rw [List.length_take, List.length_drop]
      omega
    · rw [← List.drop_drop, List.take_append_drop]
  · rintro ⟨hlength, hdrop⟩
    have hle := congrArg List.length hdrop
    rw [List.length_append, List.length_drop, List.length_drop] at hle
    rw [if_pos (by omega), hdrop, List.take_left' hlength]

/-- What stands at a position is read. -/
theorem slice?_of_drop {t : List α} (h : l.drop i = s ++ t) : slice? l i s.length = some s := by
  refine slice?_eq_some_iff.2 ⟨rfl, ?_⟩
  rw [← List.drop_drop, h, List.drop_left]

end InputLeap
