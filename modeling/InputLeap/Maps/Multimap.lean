import Mathlib.Tactic.SplitIfs

/-!
# Multimaps

A map in which one key can have several values (`std::multimap`): the entries in the order of
their keys, those of one key in the order in which they were inserted.

## Main definitions

* `Multimap` : the entries, sorted by their keys.
* `Multimap.insert`, `Multimap.eraseKey`, `Multimap.eraseFirst` : the operations.
* `Multimap.equalRange` : the values of one key.
-/

namespace InputLeap

/-- A multimap, as the sorted list of its entries. -/
structure Multimap (α β : Type*) [LE α] where
  entries : List (α × β)
  sorted : entries.Pairwise fun a b => a.1 ≤ b.1

namespace Multimap

variable {α β : Type*} [LE α] {m m' : Multimap α β} {e : α × β} {k k' : α} {v : β} {p : β → Bool}

/-- The map without entries. -/
def empty : Multimap α β := ⟨[], .nil⟩

/-- The key has the value. -/
instance : Membership (α × β) (Multimap α β) := ⟨fun m e => e ∈ m.entries⟩

theorem mem_def : e ∈ m ↔ e ∈ m.entries := Iff.rfl

@[ext]
theorem ext (h : m.entries = m'.entries) : m = m' := by
  cases m
  cases m'
  cases h
  rfl

section Keys

variable [DecidableEq α]

instance [DecidableEq β] (e : α × β) (m : Multimap α β) : Decidable (e ∈ m) :=
  inferInstanceAs (Decidable (e ∈ m.entries))

instance [DecidableEq β] : DecidableEq (Multimap α β) := fun m m' =>
  decidable_of_iff (m.entries = m'.entries) ⟨ext, fun h => h ▸ rfl⟩

/-- The entries of a key are removed (`erase` of a key). -/
def eraseKey (m : Multimap α β) (k : α) : Multimap α β where
  entries := m.entries.filter fun e => e.1 ≠ k
  sorted := m.sorted.filter _

/-- The first entry of a key whose value is as asked is removed (`erase` of a place). -/
def eraseFirst (m : Multimap α β) (k : α) (p : β → Bool) : Multimap α β where
  entries := m.entries.eraseP fun e => decide (e.1 = k) && p e.2
  sorted := m.sorted.sublist List.eraseP_sublist

/-- The values of a key (`equal_range`). -/
def equalRange (m : Multimap α β) (k : α) : List β :=
  (m.entries.filter fun e => e.1 = k).map Prod.snd

theorem mem_equalRange : v ∈ m.equalRange k ↔ (k, v) ∈ m := by
  simp [equalRange, mem_def]

theorem mem_eraseKey : e ∈ m.eraseKey k ↔ e ∈ m ∧ e.1 ≠ k := by
  simp [mem_def, eraseKey]

theorem mem_of_mem_eraseFirst (h : e ∈ m.eraseFirst k p) : e ∈ m :=
  List.mem_of_mem_eraseP h

theorem mem_eraseFirst_of_not (hne : ¬(e.1 = k ∧ p e.2)) : e ∈ m.eraseFirst k p ↔ e ∈ m := by
  refine List.mem_eraseP_of_neg ?_
  simpa using hne

theorem equalRange_eraseKey :
    (m.eraseKey k).equalRange k' = if k' = k then [] else m.equalRange k' := by
  rw [equalRange, eraseKey, List.filter_filter]
  split_ifs with hk
  · rw [List.map_eq_nil_iff, List.filter_eq_nil_iff]
    intro e _ he
    simp [hk] at he
  · rw [equalRange]
    congr 1
    refine List.filter_congr fun e _ => ?_
    by_cases he : e.1 = k'
    · simp [he, hk]
    · simp [he]

theorem equalRange_eraseFirst :
    (m.eraseFirst k p).equalRange k' =
      if k' = k then (m.equalRange k).eraseP p else m.equalRange k' := by
  unfold equalRange eraseFirst
  dsimp only
  induction m.entries with
  | nil => split_ifs <;> rfl
  | cons e l ih =>
    by_cases hk : k' = k
    · subst hk
      rw [if_pos rfl] at ih ⊢
      by_cases he : e.1 = k'
      · cases hp : p e.2 with
        | true => simp [he, hp]
        | false => simpa [List.eraseP_cons, he, hp] using ih
      · simpa [List.eraseP_cons, he] using ih
    · rw [if_neg hk] at ih ⊢
      by_cases he : e.1 = k
      · cases hp : p e.2 with
        | true => simp [he, hp, Ne.symm hk]
        | false => simpa [List.eraseP_cons, he, hp, Ne.symm hk] using ih
      · by_cases he' : e.1 = k'
        · simpa [List.eraseP_cons, he', hk] using ih
        · simpa [List.eraseP_cons, he, he'] using ih

end Keys

section Insert

variable [DecidableLE α]

theorem le_of_mem_takeWhile (h : e ∈ m.entries.takeWhile fun e => e.1 ≤ k) : e.1 ≤ k := by
  have hall := List.all_takeWhile (l := m.entries) (p := fun e => decide (e.1 ≤ k))
  rw [List.all_eq_true] at hall
  exact of_decide_eq_true (hall e h)

variable [Std.IsLinearOrder α]

theorem not_le_of_mem_dropWhile (h : e ∈ m.entries.dropWhile fun e => e.1 ≤ k) : ¬e.1 ≤ k := by
  have hsorted := m.sorted.sublist
    (List.dropWhile_sublist (l := m.entries) (p := fun e => decide (e.1 ≤ k)))
  cases hdrop : m.entries.dropWhile fun e => e.1 ≤ k with
  | nil => simp [hdrop] at h
  | cons first rest =>
    have hfirst : ¬first.1 ≤ k := by
      have hne : m.entries.dropWhile (fun e => decide (e.1 ≤ k)) ≠ [] := by simp [hdrop]
      have hhead := List.head_dropWhile_not (fun e : α × β => decide (e.1 ≤ k)) hne
      simpa [hdrop] using hhead
    rw [hdrop] at h hsorted
    -- The first entry that is left out is above the key, and the others are above it.
    rcases List.mem_cons.1 h with rfl | h
    · exact hfirst
    · exact fun hle => hfirst (Std.le_trans (List.rel_of_pairwise_cons hsorted h) hle)

theorem le_of_mem_dropWhile (h : e ∈ m.entries.dropWhile fun e => e.1 ≤ k) : k ≤ e.1 :=
  (Std.le_total (a := k) (b := e.1)).resolve_right (not_le_of_mem_dropWhile h)

/-- A value is added to a key, after those that the key has (`insert`). -/
def insert (m : Multimap α β) (k : α) (v : β) : Multimap α β where
  entries := m.entries.takeWhile (fun e => e.1 ≤ k) ++
    (k, v) :: m.entries.dropWhile fun e => e.1 ≤ k
  sorted := by
    refine List.pairwise_append.2 ⟨m.sorted.sublist (List.takeWhile_sublist _), ?_, ?_⟩
    · refine List.pairwise_cons.2 ⟨fun e he => le_of_mem_dropWhile he, ?_⟩
      exact m.sorted.sublist (List.dropWhile_sublist _)
    · intro a ha b hb
      have hak := le_of_mem_takeWhile ha
      rcases List.mem_cons.1 hb with rfl | hb
      · exact hak
      · exact Std.le_trans hak (le_of_mem_dropWhile hb)

theorem mem_insert : e ∈ m.insert k v ↔ e = (k, v) ∨ e ∈ m := by
  have hsplit : e ∈ m ↔ e ∈ m.entries.takeWhile (fun e => e.1 ≤ k) ∨
      e ∈ m.entries.dropWhile fun e => e.1 ≤ k := by
    rw [← List.mem_append, List.takeWhile_append_dropWhile]
    exact Iff.rfl
  rw [hsplit, mem_def, insert, List.mem_append, List.mem_cons]
  exact or_left_comm

/-- The new value is the last of its key, and the other keys keep theirs. -/
theorem equalRange_insert [DecidableEq α] :
    (m.insert k v).equalRange k' =
      if k' = k then m.equalRange k ++ [v] else m.equalRange k' := by
  have hsplit : m.equalRange k' =
      ((m.entries.takeWhile fun e => e.1 ≤ k).filter fun e => e.1 = k').map Prod.snd ++
        ((m.entries.dropWhile fun e => e.1 ≤ k).filter fun e => e.1 = k').map Prod.snd := by
    rw [← List.map_append, ← List.filter_append, List.takeWhile_append_dropWhile, equalRange]
  by_cases hk : k' = k
  · subst hk
    have hdrop : (m.entries.dropWhile fun e => e.1 ≤ k').filter (fun e => e.1 = k') = [] := by
      refine List.filter_eq_nil_iff.2 fun e he hk => not_le_of_mem_dropWhile he ?_
      exact of_decide_eq_true hk ▸ Std.le_refl e.1
    rw [if_pos rfl, hsplit, equalRange, insert, List.filter_append, List.filter_cons, hdrop]
    simp
  · rw [if_neg hk, hsplit]
    simp [equalRange, insert, Ne.symm hk]

end Insert

end Multimap

end InputLeap
