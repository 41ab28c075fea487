import Mathlib.Data.Nat.Basic
import Mathlib.Order.WellFounded

/-!
# Arrays that grow

An array has room for a number of elements.  When an element is added and there is no room, the
array moves to a larger room, the elements that it has being copied.  A copy need not be worth
what the element was.

## Main definitions

* `Growing.push` : an element is added.
* `Growing.Sized` : the room is one that the array grows to, and no larger than needed.
* `Growing.Lost` : the array grew since it had `since` elements and before it had `n`, at a time
  when it had the element `i`.
* `Growing.Copied` : the elements are the original ones or copies of them, according to this.

## Main results

* `Growing.Sized.length_eq_capacity_iff` : when there is no room.
* `Growing.Copied.push` : which elements are copies after one was added.
-/

namespace InputLeap

/-- An array and how many elements there is room for. -/
structure Growing (α : Type*) where
  elems : List α := []
  capacity : ℕ := 0

namespace Growing

variable {α : Type*} (grow : ℕ → ℕ) (copy : α → α)

/-- Adds an element. -/
def push (v : Growing α) (a : α) : Growing α :=
  if v.elems.length = v.capacity then ⟨v.elems.map copy ++ [a], grow v.capacity⟩
  else ⟨v.elems ++ [a], v.capacity⟩

/-- The room is the first one that the elements fit into. -/
def Sized (v : Growing α) : Prop :=
  ∃ m, v.capacity = grow^[m] 0 ∧ v.elems.length ≤ v.capacity ∧
    ∀ j < m, grow^[j] 0 < v.elems.length

/-- The array had to grow when it had the element `i` already, at least `since` elements and fewer
than `n`. -/
def Lost (since i n : ℕ) : Prop :=
  ∃ m < n, since ≤ grow^[m] 0 ∧ i < grow^[m] 0 ∧ grow^[m] 0 < n

instance (since i n : ℕ) : Decidable (Lost grow since i n) :=
  inferInstanceAs (Decidable (∃ m < n, _))

/-- The elements that were lost since then are copies of the original ones. -/
def Copied (since : ℕ) (originals elems : List α) : Prop :=
  elems.length = originals.length ∧ ∀ i, elems[i]? =
    originals[i]?.map fun a => if Lost grow since i originals.length then copy a else a

variable {grow copy} {v : Growing α} {since i n m : ℕ} {a : α}

/-! ### The room -/

theorem strictMono_rooms (hgrow : ∀ n, n < grow n) : StrictMono fun m => grow^[m] 0 := by
  refine strictMono_nat_of_lt_succ fun m => ?_
  rw [Function.iterate_succ_apply']
  exact hgrow _

theorem le_room (hgrow : ∀ n, n < grow n) (m : ℕ) : m ≤ grow^[m] 0 :=
  (strictMono_rooms hgrow).le_apply

theorem sized_empty : Sized grow ({} : Growing α) := ⟨0, rfl, le_rfl, fun _ hj => by cases hj⟩

namespace Sized

/-- There is no room if the number of elements is one that the array grows to. -/
theorem length_eq_capacity_iff (hgrow : ∀ n, n < grow n) (h : Sized grow v) :
    v.elems.length = v.capacity ↔ ∃ m, grow^[m] 0 = v.elems.length := by
  obtain ⟨k, hcap, hle, hlast⟩ := h
  constructor
  · intro heq
    exact ⟨k, (heq.trans hcap).symm⟩
  · rintro ⟨m, hm⟩
    have hmono := strictMono_rooms hgrow
    have hkm : k ≤ m := by
      by_contra hlt
      exact absurd (hlast m (Nat.not_le.1 hlt)) (by rw [hm]; exact Nat.lt_irrefl _)
    have hmk : m ≤ k := by
      refine (hmono.le_iff_le (a := m) (b := k)).1 ?_
      show grow^[m] 0 ≤ grow^[k] 0
      rwa [hm, ← hcap]
    rw [← hm, hcap, Nat.le_antisymm hmk hkm]

theorem push (hgrow : ∀ n, n < grow n) (h : Sized grow v) (a : α) :
    Sized grow (v.push grow copy a) := by
  obtain ⟨k, hcap, hle, hlast⟩ := h
  unfold Growing.push
  split_ifs with hfull
  · refine ⟨k + 1, ?_, ?_, fun j hj => ?_⟩
    · rw [Function.iterate_succ_apply', ← hcap]
    · have hlt := hgrow v.capacity
      simp only [List.length_append, List.length_map, List.length_singleton]
      omega
    · have hmono : grow^[j] 0 ≤ grow^[k] 0 :=
        (strictMono_rooms hgrow).monotone (Nat.lt_succ_iff.1 hj)
      simp only [List.length_append, List.length_map, List.length_singleton]
      omega
  · refine ⟨k, hcap, ?_, fun j hj => ?_⟩
    · simp only [List.length_append, List.length_singleton]
      omega
    · have hlt := hlast j hj
      simp only [List.length_append, List.length_singleton]
      omega

end Sized

/-! ### What is lost -/

theorem not_lost_self : ¬Lost grow n i n := by
  rintro ⟨m, -, hsince, -, hlt⟩
  omega

/-- The element that is added is not lost then. -/
theorem not_lost_last : ¬Lost grow since n (n + 1) := by
  rintro ⟨m, -, -, hi, hlt⟩
  omega

theorem lost_of_full (hgrow : ∀ n, n < grow n) (hm : grow^[m] 0 = n) (hsince : since ≤ n)
    (hi : i < n) : Lost grow since i (n + 1) := by
  have hle := le_room hgrow m
  exact ⟨m, by omega, by omega, by omega, by omega⟩

theorem lost_succ_iff (hgrow : ∀ n, n < grow n) (hroom : ∀ m, grow^[m] 0 ≠ n) :
    Lost grow since i (n + 1) ↔ Lost grow since i n := by
  constructor
  · rintro ⟨m, -, hsince, hi, hlt⟩
    have hle := le_room hgrow m
    have hne := hroom m
    exact ⟨m, by omega, hsince, hi, by omega⟩
  · rintro ⟨m, hm, hsince, hi, hlt⟩
    exact ⟨m, by omega, hsince, hi, by omega⟩

/-! ### The elements -/

theorem copied_self (elems : List α) : Copied grow copy elems.length elems elems := by
  refine ⟨rfl, fun i => ?_⟩
  cases elems[i]? with
  | none => rfl
  | some a => rw [Option.map_some, if_neg not_lost_self]

/-- An element is added that is not a copy. -/
theorem Copied.push {originals : List α} (hgrow : ∀ n, n < grow n)
    (hcopy : ∀ a, copy (copy a) = copy a) (hsized : Sized grow v)
    (hsince : since ≤ originals.length) (h : Copied grow copy since originals v.elems) (a : α) :
    Copied grow copy since (originals ++ [a]) (v.push grow copy a).elems := by
  obtain ⟨hlength, helems⟩ := h
  have hroom := hsized.length_eq_capacity_iff hgrow
  rw [hlength] at hroom
  have hlast (old : List α) (hold : old.length = originals.length)
      (hkept : ∀ i < originals.length, old[i]? = originals[i]?.map fun b =>
        if Lost grow since i (originals.length + 1) then copy b else b) :
      Copied grow copy since (originals ++ [a]) (old ++ [a]) := by
    refine ⟨by rw [List.length_append, List.length_append, hold], fun i => ?_⟩
    rw [List.length_append, List.length_singleton]
    rcases Nat.lt_trichotomy i originals.length with hlt | rfl | hgt
    · rw [List.getElem?_append_left (hold ▸ hlt), List.getElem?_append_left hlt, hkept i hlt]
    · rw [← hold, List.getElem?_concat_length, hold, List.getElem?_concat_length, Option.map_some,
        if_neg not_lost_last]
    · rw [List.getElem?_eq_none (by simp; omega), List.getElem?_eq_none (by simp; omega)]
      rfl
  unfold Growing.push
  split_ifs with hfull
  · obtain ⟨m, hm⟩ := hroom.1 (hlength ▸ hfull)
    refine hlast _ (by rw [List.length_map, hlength]) fun i hi => ?_
    rw [List.getElem?_map, helems, Option.map_map]
    refine Option.map_congr fun b _ => ?_
    rw [if_pos (lost_of_full hgrow hm hsince hi)]
    dsimp only [Function.comp]
    split_ifs
    · exact hcopy b
    · rfl
  · refine hlast _ hlength fun i hi => ?_
    have hne : ∀ m, grow^[m] 0 ≠ originals.length := fun m hm =>
      hfull (hlength.trans (hroom.2 ⟨m, hm⟩))
    rw [helems]
    refine Option.map_congr fun b _ => ?_
    rw [if_congr (lost_succ_iff hgrow hne) rfl rfl]

end Growing

end InputLeap
