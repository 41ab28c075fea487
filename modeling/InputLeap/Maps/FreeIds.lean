import Mathlib.Data.List.Range

/-!
# Ids that are used again

Ids are numbered from 0 on.  One that is given back comes to the end of a list of free ids, from
which the next one that is needed is taken; a new id is made if the list is empty.

## Main definitions

* `FreeIds.Numbered` : the ids in use and the free ones are the first numbers, each once.

## Main results

* `FreeIds.Numbered.reuse`, `FreeIds.Numbered.new`, `FreeIds.Numbered.release` : taking an id and
  giving one back.
-/

namespace InputLeap

namespace FreeIds

/-- The ids `used` and `free` are the first numbers, each once. -/
def Numbered (used free : List ℕ) : Prop := ∃ k, (used ++ free).Perm (List.range k)

variable {used free : List ℕ} {i : ℕ}

theorem numbered_nil : Numbered [] [] := ⟨0, .refl _⟩

namespace Numbered

theorem nodup (h : Numbered used free) : used.Nodup := by
  obtain ⟨k, hk⟩ := h
  exact (List.nodup_append.1 (hk.nodup_iff.2 List.nodup_range)).1

/-- No free id is in use. -/
theorem not_mem (h : Numbered used free) (hi : i ∈ used) : i ∉ free := by
  obtain ⟨k, hk⟩ := h
  intro hfree
  exact (List.nodup_append.1 (hk.nodup_iff.2 List.nodup_range)).2.2 i hi i hfree rfl

/-- Without free ids the ids in use are those below their number. -/
theorem mem_iff (h : Numbered used []) : i ∈ used ↔ i < used.length := by
  obtain ⟨k, hk⟩ := h
  rw [List.append_nil] at hk
  rw [hk.mem_iff, List.mem_range, hk.length_eq, List.length_range]

/-- A free id is taken. -/
theorem reuse (h : Numbered used (free ++ [i])) : i ∉ used ∧ Numbered (used ++ [i]) free := by
  refine ⟨fun hi => h.not_mem hi (List.mem_append_right _ (List.mem_singleton_self i)), ?_⟩
  obtain ⟨k, hk⟩ := h
  refine ⟨k, List.Perm.trans ?_ hk⟩
  rw [List.append_assoc]
  exact List.perm_append_comm.append_left used

/-- A new id is made. -/
theorem new (h : Numbered used []) :
    used.length ∉ used ∧ Numbered (used ++ [used.length]) [] := by
  refine ⟨fun hmem => Nat.lt_irrefl _ (h.mem_iff.1 hmem), ?_⟩
  obtain ⟨k, hk⟩ := h
  rw [List.append_nil] at hk
  have hlength : used.length = k := hk.length_eq.trans List.length_range
  refine ⟨k + 1, ?_⟩
  rw [List.append_nil, hlength, List.range_succ]
  exact hk.append_right [k]

/-- The first id in use is given back. -/
theorem release (h : Numbered (i :: used) free) : Numbered used (free ++ [i]) := by
  obtain ⟨k, hk⟩ := h
  refine ⟨k, List.Perm.trans ?_ hk⟩
  rw [← List.append_assoc]
  exact List.perm_append_comm

/-- The last id in use is given back. -/
theorem releaseLast (h : Numbered (used ++ [i]) free) : Numbered used (free ++ [i]) := by
  obtain ⟨k, hk⟩ := h
  refine ⟨k, List.Perm.trans ?_ hk⟩
  rw [List.append_assoc]
  exact List.perm_append_comm.append_left used

end Numbered

end FreeIds

end InputLeap
