import InputLeap.Text.Scan
import Mathlib.Data.List.TakeDrop

/-!
# Positions in a text

Searching for a character and taking a part, by positions.  What a search sees of the text is what
is left of it from a position on, so the lemmas are about `drop`.

## Main definitions

* `Text.find`, `Text.findLast` : the first place of a character from a position on, and the last
  one up to a position.
* `Text.substr?` : a part of the text, if it begins inside.

## Main results

* `find_of_drop`, `find_eq_none_iff` : what a search finds.
* `find_skip` : a search passes over what does not contain the character.
* `findLast_of_take`, `findLast_eq_none_iff` : what a search backwards finds.
* `substr?_of_drop` : the part that stands at a position.
-/

namespace InputLeap

namespace Text

variable {s a t : Text} {c : Char} {pos i : ℕ}

/-- The place of the first `c` in `s` from the position `pos` on. -/
def find (c : Char) (s : Text) (pos : ℕ) : Option ℕ :=
  ((s.drop pos).findIdx? (· == c)).map (pos + ·)

/-- The place of the last `c` in `s` at or before the position `pos`. -/
def findLast (c : Char) (s : Text) (pos : ℕ) : Option ℕ :=
  ((s.take (pos + 1)).reverse.findIdx? (· == c)).map ((s.take (pos + 1)).length - 1 - ·)

/-- The `n` characters from `pos` on, or as many as there are; there is no part that begins
behind the end. -/
def substr? (s : Text) (pos n : ℕ) : Option Text :=
  if pos ≤ s.length then some ((s.drop pos).take n) else none

theorem findIdx?_beq_append (h : c ∉ a) (t : Text) :
    (a ++ t).findIdx? (· == c) = (t.findIdx? (· == c)).map (· + a.length) := by
  have hnone : a.findIdx? (· == c) = none := List.findIdx?_eq_none_iff.2 fun d hd =>
    beq_eq_false_iff_ne.2 fun hdc => h (hdc ▸ hd)
  rw [List.findIdx?_append, hnone, Option.none_or]

/-- What stands at the position up to the first `c` is passed over. -/
theorem find_of_drop (h : s.drop pos = a ++ c :: t) (ha : c ∉ a) :
    find c s pos = some (pos + a.length) := by
  rw [find, h, findIdx?_beq_append ha, List.findIdx?_cons, beq_self_eq_true, if_pos rfl,
    Option.map_some, Option.map_some, Nat.zero_add]

theorem find_eq_none_iff : find c s pos = none ↔ c ∉ s.drop pos := by
  rw [find, Option.map_eq_none_iff, List.findIdx?_eq_none_iff]
  constructor
  · intro h hc
    exact beq_eq_false_iff_ne.1 (h c hc) rfl
  · intro h d hd
    exact beq_eq_false_iff_ne.2 fun hdc => h (hdc ▸ hd)

/-- A search passes over what does not contain the character. -/
theorem find_skip (h : s.drop pos = a ++ t) (ha : c ∉ a) :
    find c s pos = find c s (pos + a.length) := by
  have ht : s.drop (pos + a.length) = t := by rw [← List.drop_drop, h, List.drop_left]
  rw [find, find, h, ht, findIdx?_beq_append ha, Option.map_map]
  refine congrArg (fun f => Option.map f _) ?_
  funext n
  exact (Nat.add_left_comm _ _ _).trans (Nat.add_comm _ _)

/-- What a search finds is a place of the character, with none before it. -/
theorem exists_of_find_eq_some (h : find c s pos = some i) :
    ∃ a t, s.drop pos = a ++ c :: t ∧ c ∉ a ∧ i = pos + a.length := by
  have hmem : c ∈ s.drop pos := by
    by_contra hnot
    rw [find_eq_none_iff.2 hnot] at h
    cases h
  obtain ⟨a, t, hdrop, ha⟩ := List.eq_append_cons_of_mem hmem
  rw [find_of_drop hdrop ha] at h
  exact ⟨a, t, hdrop, ha, (Option.some.inj h).symm⟩

theorem le_of_find_eq_some (h : find c s pos = some i) : pos ≤ i := by
  obtain ⟨a, t, -, -, rfl⟩ := exists_of_find_eq_some h
  exact Nat.le_add_right _ _

theorem lt_length_of_find_eq_some (h : find c s pos = some i) : i < s.length := by
  obtain ⟨a, t, hdrop, -, rfl⟩ := exists_of_find_eq_some h
  have hlength := congrArg List.length hdrop
  rw [List.length_drop, List.length_append, List.length_cons] at hlength
  omega

theorem substr?_of_drop (h : s.drop pos = a ++ t) (hpos : pos ≤ s.length) :
    substr? s pos a.length = some a := by
  rw [substr?, if_pos hpos, h, List.take_left]

/-- What stands behind the last `c` up to the position is passed over. -/
theorem findLast_of_take (h : s.take (pos + 1) = a ++ c :: t) (ht : c ∉ t) :
    findLast c s pos = some a.length := by
  have hrev : (a ++ c :: t).reverse = t.reverse ++ c :: a.reverse := by
    rw [List.reverse_append, List.reverse_cons, List.append_assoc, List.singleton_append]
  rw [findLast, h, hrev, findIdx?_beq_append (fun hc => ht (List.mem_reverse.1 hc)),
    List.findIdx?_cons, beq_self_eq_true, if_pos rfl, Option.map_some, Option.map_some,
    List.length_append, List.length_cons, List.length_reverse]
  congr 1
  omega

theorem findLast_eq_none_iff : findLast c s pos = none ↔ c ∉ s.take (pos + 1) := by
  rw [findLast, Option.map_eq_none_iff, List.findIdx?_eq_none_iff]
  constructor
  · intro h hc
    exact beq_eq_false_iff_ne.1 (h c (List.mem_reverse.2 hc)) rfl
  · intro h d hd
    exact beq_eq_false_iff_ne.2 fun hdc => h (hdc ▸ List.mem_reverse.1 hd)

end Text

end InputLeap
