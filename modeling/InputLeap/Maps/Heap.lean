import Mathlib.Data.List.Sort
import Mathlib.Order.Basic

/-!
# Heaps in an array

The element at a position of a heap is not before the one at the parent's position, so the first
one is the least.  The algorithms of a standard library on such arrays are given by what they
promise.

## Main definitions

* `Heap.IsHeap` : the array is a heap, ordered by a key.
* `Heap.Algorithms` : functions that keep what the standard promises of `push_heap`, `pop_heap`
  and `make_heap`.
* `Heap.Algorithms.push`, `Heap.Algorithms.pop`, `Heap.Algorithms.erase` : a priority queue.
* `Heap.Algorithms.sorting` : algorithms that sort the array.

## Main results

* `Heap.IsHeap.least` : the first element is the least.
* `Heap.IsHeap.map` : a change of all elements that keeps their order keeps the heap.
-/

namespace InputLeap

namespace Heap

variable {α β K : Type*} [LinearOrder K] {key : α → K}

/-- No element is before its parent. -/
def IsHeap (key : α → K) (l : List α) : Prop :=
  ∀ (i : ℕ) (x y : α), 0 < i → l[(i - 1) / 2]? = some x → l[i]? = some y → key x ≤ key y

variable {c : List α} {x y : α}

theorem isHeap_nil : IsHeap key [] := by
  rintro i x y - hx -
  cases hx

/-- **The first element** is the least. -/
theorem IsHeap.least (h : IsHeap key (x :: c)) (hy : y ∈ x :: c) : key x ≤ key y := by
  obtain ⟨i, hi⟩ := List.mem_iff_getElem?.1 hy
  clear hy
  induction i using Nat.strong_induction_on generalizing y with
  | _ i ih =>
    obtain rfl | hpos := Nat.eq_zero_or_pos i
    · cases hi
      exact le_refl _
    · have hlt : (i - 1) / 2 < i := by omega
      have hbound : (i - 1) / 2 < (x :: c).length :=
        Nat.lt_trans hlt (List.getElem?_eq_some_iff.1 hi).1
      exact (ih _ hlt (List.getElem?_eq_getElem hbound)).trans
        (h i _ y hpos (List.getElem?_eq_getElem hbound) hi)

theorem IsHeap.map {key' : β → K} {f : α → β} (h : IsHeap key c)
    (hf : ∀ x y, key x ≤ key y → key' (f x) ≤ key' (f y)) : IsHeap key' (c.map f) := by
  intro i x' y' hpos hx hy
  rw [List.getElem?_map] at hx hy
  obtain ⟨x, hxc, rfl⟩ := Option.map_eq_some_iff.1 hx
  obtain ⟨y, hyc, rfl⟩ := Option.map_eq_some_iff.1 hy
  exact hf x y (h i x y hpos hxc hyc)

theorem isHeap_of_pairwise (h : c.Pairwise (key · ≤ key ·)) : IsHeap key c := by
  intro i x y hpos hx hy
  obtain ⟨hi, rfl⟩ := List.getElem?_eq_some_iff.1 hy
  obtain ⟨hj, rfl⟩ := List.getElem?_eq_some_iff.1 hx
  exact List.pairwise_iff_getElem.1 h _ i hj hi (by omega)

/-- What the standard promises of the algorithms on heaps. -/
structure Algorithms (key : α → K) where
  pushHeap : List α → List α
  popHeap : List α → List α
  makeHeap : List α → List α
  /-- The last element is put in its place in the heap that is before it. -/
  pushHeap_spec : ∀ c x, IsHeap key c →
    IsHeap key (pushHeap (c ++ [x])) ∧ (pushHeap (c ++ [x])).Perm (c ++ [x])
  /-- The first element is put at the end, and the others are a heap. -/
  popHeap_spec : ∀ x c, IsHeap key (x :: c) →
    ∃ c', popHeap (x :: c) = c' ++ [x] ∧ IsHeap key c' ∧ c'.Perm c
  /-- The elements are put in order. -/
  makeHeap_spec : ∀ c, IsHeap key (makeHeap c) ∧ (makeHeap c).Perm c

namespace Algorithms

variable (a : Algorithms key)

/-- Adds an element. -/
def push (c : List α) (v : α) : List α := a.pushHeap (c ++ [v])

/-- Removes the first element. -/
def pop (c : List α) : List α := (a.popHeap c).dropLast

/-- Removes the element at a position. -/
def erase (c : List α) (i : ℕ) : List α := a.makeHeap (c.eraseIdx i)

theorem push_spec (h : IsHeap key c) (v : α) :
    IsHeap key (a.push c v) ∧ (a.push c v).Perm (v :: c) := by
  obtain ⟨hheap, hperm⟩ := a.pushHeap_spec c v h
  exact ⟨hheap, hperm.trans (List.perm_append_singleton v c)⟩

theorem pop_spec (h : IsHeap key (x :: c)) :
    IsHeap key (a.pop (x :: c)) ∧ (a.pop (x :: c)).Perm c := by
  obtain ⟨c', heq, hheap, hperm⟩ := a.popHeap_spec x c h
  rw [pop, heq, List.dropLast_concat]
  exact ⟨hheap, hperm⟩

theorem erase_spec (c : List α) (i : ℕ) :
    IsHeap key (a.erase c i) ∧ (a.erase c i).Perm (c.eraseIdx i) :=
  a.makeHeap_spec _

/-- The order of the keys, on the elements. -/
def Before (key : α → K) (x y : α) : Prop := key x ≤ key y

instance : DecidableRel (Before key) := fun x y => inferInstanceAs (Decidable (key x ≤ key y))

instance : Std.Total (Before key) := ⟨fun x y => le_total (key x) (key y)⟩

instance : IsTrans α (Before key) := ⟨fun _ _ _ => le_trans⟩

theorem isHeap_insertionSort (c : List α) : IsHeap key (c.insertionSort (Before key)) :=
  isHeap_of_pairwise (List.pairwise_insertionSort (Before key) c)

/-- A sorted array is a heap. -/
def sorting (key : α → K) : Algorithms key where
  pushHeap c := c.insertionSort (Before key)
  popHeap
    | [] => []
    | x :: c => c.insertionSort (Before key) ++ [x]
  makeHeap c := c.insertionSort (Before key)
  pushHeap_spec _ _ _ := ⟨isHeap_insertionSort _, List.perm_insertionSort _ _⟩
  popHeap_spec _ _ _ := ⟨_, rfl, isHeap_insertionSort _, List.perm_insertionSort _ _⟩
  makeHeap_spec _ := ⟨isHeap_insertionSort _, List.perm_insertionSort _ _⟩

end Algorithms

end Heap

end InputLeap
