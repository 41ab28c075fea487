import Mathlib.Data.List.Basic
import Mathlib.Data.List.Infix
import Mathlib.Data.List.TakeWhile

/-!
# Searching a list

The place of the first occurrence of a word, and of the first value of a kind.

## Main definitions

* `Search.find?` : the place of the first occurrence of a word.
* `Search.findFrom?` : the place of the first value of a kind from a position on.
* `Search.substr?` : a part of the list, if it begins inside.

## Main results

* `Search.find?_eq_some_iff` : what a search for a word finds.
* `Search.find?_append`, `Search.find?_skip` : a search passes over what the word does not occur
  in, and does not look behind the first occurrence.
* `Search.findFrom?_eq_some_iff`, `Search.findFrom?_eq_none_iff` : what a search for a kind finds.
* `Search.take_findFrom?` : a search for the other kind finds the end of a run.
-/

namespace InputLeap

namespace Search

variable {α : Type*} {w a b s t d : List α} {i j pos : ℕ} {p : α → Bool}

section Words

variable [DecidableEq α]

/-- The place of the first occurrence of the word `w`. -/
def find? (w : List α) : List α → Option ℕ
  | [] => if w = [] then some 0 else none
  | c :: s => if w <+: c :: s then some 0 else (find? w s).map (· + 1)

theorem find?_of_prefix (h : w <+: s) : find? w s = some 0 := by
  cases s with
  | nil => exact if_pos (List.prefix_nil.1 h)
  | cons c s => exact if_pos h

theorem find?_cons_of_not (c : α) (h : ¬w <+: c :: s) :
    find? w (c :: s) = (find? w s).map (· + 1) := if_neg h

/-- The word occurs at the place that is found. -/
theorem prefix_drop_of_find? (h : find? w s = some i) : w <+: s.drop i := by
  induction s generalizing i with
  | nil =>
    rw [find?] at h
    split_ifs at h with hw
    rw [hw]
    exact List.nil_prefix
  | cons c s ih =>
    rw [find?] at h
    split_ifs at h with hw
    · cases h
      exact hw
    · obtain ⟨j, hj, rfl⟩ := Option.map_eq_some_iff.1 h
      exact ih hj

/-- It does not occur before. -/
theorem not_prefix_drop_of_find? (h : find? w s = some i) (hj : j < i) : ¬w <+: s.drop j := by
  induction s generalizing i j with
  | nil =>
    rw [find?] at h
    split_ifs at h
    cases h
    exact absurd hj (Nat.not_lt_zero j)
  | cons c s ih =>
    rw [find?] at h
    split_ifs at h with hw
    · cases h
      exact absurd hj (Nat.not_lt_zero j)
    · obtain ⟨i', hi', rfl⟩ := Option.map_eq_some_iff.1 h
      cases j with
      | zero => exact hw
      | succ j => exact ih hi' (Nat.lt_of_succ_lt_succ hj)

theorem find?_eq_none_iff : find? w s = none ↔ ¬w <:+: s := by
  induction s with
  | nil => simp [find?]
  | cons c s ih =>
    rw [find?, List.infix_cons_iff]
    split_ifs with hw
    · exact iff_of_false nofun fun hnot => hnot (.inl hw)
    · rw [Option.map_eq_none_iff, ih, or_iff_right hw]

/-- **What is found** is the first occurrence. -/
theorem find?_eq_some_iff :
    find? w s = some i ↔ w <+: s.drop i ∧ i ≤ s.length ∧ ∀ j < i, ¬w <+: s.drop j := by
  constructor
  · intro h
    refine ⟨prefix_drop_of_find? h, ?_, fun j => not_prefix_drop_of_find? h⟩
    induction s generalizing i with
    | nil =>
      rw [find?] at h
      split_ifs at h
      cases h
      exact Nat.le_refl _
    | cons c s ih =>
      rw [find?] at h
      split_ifs at h
      · cases h
        exact Nat.zero_le _
      · obtain ⟨j, hj, rfl⟩ := Option.map_eq_some_iff.1 h
        exact Nat.succ_le_succ (ih hj)
  · rintro ⟨hpre, -, hfirst⟩
    cases hfind : find? w s with
    | none =>
      have hinfix := hpre.isInfix.trans (List.drop_suffix i s).isInfix
      exact absurd hinfix (find?_eq_none_iff.1 hfind)
    | some j =>
      obtain hlt | rfl | hgt := Nat.lt_trichotomy j i
      · exact absurd (prefix_drop_of_find? hfind) (hfirst j hlt)
      · rfl
      · exact absurd hpre (not_prefix_drop_of_find? hfind hgt)

/-- What is behind the first occurrence does not matter. -/
theorem find?_append (h : find? w s = some i) (t : List α) : find? w (s ++ t) = some i := by
  obtain ⟨hpre, hle, hfirst⟩ := find?_eq_some_iff.1 h
  have hlength := hpre.length_le
  rw [List.length_drop] at hlength
  refine find?_eq_some_iff.2 ⟨?_, ?_, fun j hj hw => hfirst j hj ?_⟩
  · rw [List.drop_append_of_le_length hle]
    exact hpre.trans (List.prefix_append _ _)
  · rw [List.length_append]
    omega
  · rw [List.drop_append_of_le_length (by omega)] at hw
    refine List.prefix_of_prefix_length_le hw (List.prefix_append _ _) ?_
    rw [List.length_drop]
    omega

/-- The first value of the word does not occur before it. -/
theorem find?_of_not_mem {c : α} (ha : c ∉ a) (t : List α) :
    find? (c :: w) (a ++ (c :: w ++ t)) = some a.length := by
  induction a with
  | nil => exact find?_of_prefix (List.prefix_append _ _)
  | cons x a ih =>
    rw [List.mem_cons, not_or] at ha
    have hnot : ¬c :: w <+: x :: (a ++ (c :: w ++ t)) := by
      rw [List.cons_prefix_cons]
      exact fun h => ha.1 h.1
    rw [List.cons_append, find?_cons_of_not x hnot, ih ha.2, Option.map_some, List.length_cons]

/-- What the word does not occur in, and a run of values that it does not have, are passed over. -/
theorem find?_skip (ha : ¬w <:+: a) (hd : d ≠ []) (hw : ∀ c ∈ w, c ∉ d) (t : List α) :
    find? w (a ++ (d ++ t)) = (find? w t).map (a.length + d.length + ·) := by
  have hne : w ≠ [] := by
    rintro rfl
    exact ha List.nil_infix
  -- No occurrence starts in the run.
  have hrun : ∀ d' : List α, (∀ c ∈ w, c ∉ d') →
      find? w (d' ++ t) = (find? w t).map (d'.length + ·) := by
    intro d' hd'
    induction d' with
    | nil => simp
    | cons c d' ih =>
      have hnot : ¬w <+: c :: (d' ++ t) := by
        intro hpre
        obtain ⟨x, w, rfl⟩ := List.exists_cons_of_ne_nil hne
        rw [List.cons_prefix_cons] at hpre
        exact hd' x List.mem_cons_self (hpre.1 ▸ List.mem_cons_self)
      rw [List.cons_append, find?_cons_of_not c hnot,
        ih fun x hx hmem => hd' x hx (List.mem_cons_of_mem _ hmem), Option.map_map]
      congr 1
      funext n
      simp only [Function.comp_apply, List.length_cons]
      omega
  induction a with
  | nil =>
    rw [List.nil_append, hrun d hw]
    simp
  | cons c a ih =>
    have hnot : ¬w <+: c :: (a ++ (d ++ t)) := by
      intro hpre
      rw [← List.cons_append] at hpre
      by_cases hle : w.length ≤ (c :: a).length
      · exact ha (List.prefix_of_prefix_length_le hpre (List.prefix_append _ _) hle).isInfix
      · -- The occurrence would have the first value of the run.
        obtain ⟨x, d, rfl⟩ := List.exists_cons_of_ne_nil hd
        obtain ⟨r, hr⟩ := List.prefix_of_prefix_length_le (List.prefix_append (c :: a) _) hpre
          (by omega)
        rw [← hr] at hpre
        rw [List.prefix_append_right_inj] at hpre
        cases r with
        | nil =>
          rw [List.append_nil] at hr
          exact hle (by rw [← hr])
        | cons y r =>
          rw [List.cons_append, List.cons_prefix_cons] at hpre
          refine hw y ?_ (hpre.1 ▸ List.mem_cons_self)
          rw [← hr]
          exact List.mem_append_right _ List.mem_cons_self
    rw [List.cons_append, find?_cons_of_not c hnot, ih fun hinfix => ha (List.infix_cons hinfix),
      Option.map_map]
    congr 1
    funext n
    simp only [Function.comp_apply, List.length_cons]
    omega

end Words

/-! ### Parts -/

/-- The `n` values from a position on, or as many as there are; there is no part that begins behind
the end. -/
def substr? (s : List α) (pos n : ℕ) : Option (List α) :=
  if pos ≤ s.length then some ((s.drop pos).take n) else none

theorem substr?_append (a b t : List α) : substr? (a ++ (b ++ t)) a.length b.length = some b := by
  rw [substr?, if_pos (by rw [List.length_append]; omega), List.drop_left, List.take_left]

/-! ### Kinds of values -/

/-- The place of the first value of a kind from a position on. -/
def findFrom? (p : α → Bool) (s : List α) (pos : ℕ) : Option ℕ :=
  ((s.drop pos).findIdx? p).map (pos + ·)

theorem findFrom?_eq_none_iff : findFrom? p s pos = none ↔ ∀ c ∈ s.drop pos, p c = false := by
  rw [findFrom?, Option.map_eq_none_iff, List.findIdx?_eq_none_iff]

/-- **What is found** has values of the other kind before it. -/
theorem findFrom?_eq_some_iff : findFrom? p s pos = some i ↔
    ∃ a c t, s.drop pos = a ++ c :: t ∧ (∀ x ∈ a, p x = false) ∧ p c = true ∧
      i = pos + a.length := by
  rw [findFrom?, Option.map_eq_some_iff]
  constructor
  · rintro ⟨k, hk, rfl⟩
    obtain ⟨hlt, hp, hfirst⟩ := List.findIdx?_eq_some_iff_getElem.1 hk
    refine ⟨(s.drop pos).take k, (s.drop pos)[k], (s.drop pos).drop (k + 1), ?_, fun x hx => ?_, hp,
      ?_⟩
    · rw [List.getElem_cons_drop, List.take_append_drop]
    · obtain ⟨j, hj, rfl⟩ := List.mem_take_iff_getElem.1 hx
      exact Bool.eq_false_iff.2 (hfirst j (by omega))
    · rw [List.length_take]
      omega
  · rintro ⟨a, c, t, hdrop, ha, hc, rfl⟩
    refine ⟨a.length, ?_, rfl⟩
    have hnone : a.findIdx? p = none := List.findIdx?_eq_none_iff.2 ha
    rw [hdrop, List.findIdx?_append, hnone, Option.none_or, List.findIdx?_cons, if_pos hc]
    simp

/-- From a position to the first value of the other kind, or to the end, is the run of the kind. -/
theorem take_findFrom? (p : α → Bool) (s : List α) (pos : ℕ) :
    (s.drop pos).take ((findFrom? (fun b => !p b) s pos).getD s.length - pos) =
      (s.drop pos).takeWhile p := by
  cases hfind : findFrom? (fun b => !p b) s pos with
  | none =>
    have hall := findFrom?_eq_none_iff.1 hfind
    rw [Option.getD_none, List.take_of_length_le (by rw [List.length_drop]), eq_comm,
      List.takeWhile_eq_self_iff]
    intro c hc
    simpa using hall c hc
  | some i =>
    obtain ⟨a, c, t, hdrop, ha, hc, rfl⟩ := findFrom?_eq_some_iff.1 hfind
    rw [Option.getD_some, Nat.add_sub_cancel_left, hdrop, List.take_left,
      List.takeWhile_append_of_pos fun x hx => by simpa using ha x hx, List.takeWhile_cons]
    simp only [Bool.not_eq_true'] at hc
    rw [hc]
    simp

end Search

end InputLeap
