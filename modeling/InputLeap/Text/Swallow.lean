import Mathlib.Algebra.Group.Nat.Even
import Mathlib.Data.List.Induction

/-!
# Scans in which a value takes the next one with it

Some values of a list, those of which `p` is true, take the one behind them with them when a scan
from the left gets to them.  Whether a value is taken depends on the run of such values right
before it.

## Main definitions

* `Text.swallows` : the value behind the list is taken.
* `Text.trailing` : the length of the run at the end.

## Main results

* `Text.swallows_eq_false_iff` : it is not taken if and only if that length is even.
-/

namespace InputLeap

namespace Text

variable {α : Type*} (p : α → Bool)

/-- The value behind the list is taken. -/
def swallows (b : List α) : Bool := b.foldl (fun waiting x => !waiting && p x) false

/-- The number of values at the end of the list of which `p` is true. -/
def trailing (b : List α) : ℕ := (b.reverse.takeWhile p).length

variable {p}

theorem swallows_cons_of_false {x : α} (h : p x = false) (b : List α) :
    swallows p (x :: b) = swallows p b := by
  unfold swallows
  rw [List.foldl_cons, h]
  rfl

theorem swallows_cons_cons_of_true {x : α} (h : p x = true) (y : α) (b : List α) :
    swallows p (x :: y :: b) = swallows p b := by
  unfold swallows
  rw [List.foldl_cons, List.foldl_cons, h]
  rfl

theorem swallows_append_singleton (b : List α) (x : α) :
    swallows p (b ++ [x]) = (!swallows p b && p x) := by
  rw [swallows, List.foldl_append]
  rfl

theorem trailing_append_singleton (b : List α) (x : α) :
    trailing p (b ++ [x]) = if p x then trailing p b + 1 else 0 := by
  rw [trailing, List.reverse_append, List.reverse_singleton, List.singleton_append,
    List.takeWhile_cons]
  split_ifs
  · rfl
  · rfl

/-- Each value of which `p` is true takes the next, unless it is taken itself. -/
theorem swallows_eq_false_iff (b : List α) : swallows p b = false ↔ Even (trailing p b) := by
  induction b using List.reverseRecOn with
  | nil => exact iff_of_true rfl ⟨0, rfl⟩
  | append_singleton b x ih =>
    rw [swallows_append_singleton, trailing_append_singleton]
    cases p x with
    | false =>
      rw [Bool.and_false]
      exact iff_of_true rfl ⟨0, rfl⟩
    | true =>
      rw [Bool.and_true, Bool.not_eq_false', if_pos rfl, Nat.even_add_one, ← ih, Bool.not_eq_false]

end Text

end InputLeap
