import Mathlib.Data.List.Basic

/-!
# Messages in flight

A history of messages with the times at which they were sent.  A receiver handles them in order, so
the messages in flight are those from some place on.

## Main definitions

* `InFlight ms ts k m t` : the message `m`, sent at the time `t`, is not among the first `k`.

## Main results

* `InFlight.append`, `InFlight.of_mem` : what is in flight when more messages are sent.
* `InFlight.handled` : what is in flight when one more message was handled.
-/

namespace InputLeap

variable {α T : Type*}

/-- The message `m` of the history `ms` was sent at the time `t` and is not among the first `k`. -/
def InFlight (ms : List α) (ts : List T) (k : ℕ) (m : α) (t : T) : Prop :=
  ∃ i, k ≤ i ∧ ms[i]? = some m ∧ ts[i]? = some t

namespace InFlight

variable {ms : List α} {ts : List T} {k : ℕ} {m m' : α} {t : T}

theorem time_mem (h : InFlight ms ts k m t) : t ∈ ts.drop k := by
  obtain ⟨i, hi, -, ht⟩ := h
  refine List.mem_of_getElem? (i := i - k) ?_
  rw [List.getElem?_drop, Nat.add_sub_cancel' hi, ht]

/-- It stays in flight when more messages are sent. -/
theorem append (h : InFlight ms ts k m t) (ms' : List α) (ts' : List T) :
    InFlight (ms ++ ms') (ts ++ ts') k m t := by
  obtain ⟨i, hi, hm, ht⟩ := h
  refine ⟨i, hi, ?_, ?_⟩
  · rw [List.getElem?_append_left (List.getElem?_eq_some_iff.1 hm).1, hm]
  · rw [List.getElem?_append_left (List.getElem?_eq_some_iff.1 ht).1, ht]

/-- A message that is sent now is in flight. -/
theorem of_mem (hlen : ms.length = ts.length) (hk : k ≤ ms.length) {ms' : List α} (hm : m ∈ ms')
    (t : T) : InFlight (ms ++ ms') (ts ++ List.replicate ms'.length t) k m t := by
  obtain ⟨i, hi, rfl⟩ := List.mem_iff_getElem.1 hm
  refine ⟨ms.length + i, by omega, ?_, ?_⟩
  · rw [List.getElem?_append_right (by omega), Nat.add_sub_cancel_left,
      List.getElem?_eq_getElem hi]
  · rw [hlen, List.getElem?_append_right (by omega), Nat.add_sub_cancel_left,
      List.getElem?_replicate, if_pos hi]

/-- When the first message in flight is handled, the others stay in flight. -/
theorem handled (h : InFlight ms ts k m t) (hm : ms[k]? = some m') (hne : m ≠ m') :
    InFlight ms ts (k + 1) m t := by
  obtain ⟨i, hi, hi', ht⟩ := h
  have hik : i ≠ k := by
    rintro rfl
    exact hne (Option.some.inj (hi'.symm.trans hm))
  exact ⟨i, by omega, hi', ht⟩

/-- A message that was not handled is in flight. -/
theorem of_mem_drop (hlen : ms.length = ts.length) (hm : m ∈ ms.drop k) :
    ∃ t, InFlight ms ts k m t := by
  obtain ⟨i, hi, rfl⟩ := List.mem_iff_getElem.1 hm
  rw [List.length_drop] at hi
  refine ⟨ts[k + i], k + i, Nat.le_add_right k i, ?_, List.getElem?_eq_getElem _⟩
  rw [List.getElem_drop, List.getElem?_eq_getElem]

end InFlight

/-- The times of what is in flight when messages were sent at one time and others handled. -/
theorem mem_drop_append_replicate {ts : List T} {k k' n : ℕ} {t now : T} (hk : k ≤ k')
    (h : t ∈ (ts ++ List.replicate n now).drop k') : t ∈ ts.drop k ∨ t = now := by
  rw [List.drop_append, List.mem_append] at h
  rcases h with h | h
  · rw [← Nat.add_sub_cancel' hk, ← List.drop_drop] at h
    exact .inl (List.mem_of_mem_drop h)
  · exact .inr (List.eq_of_mem_replicate (List.mem_of_mem_drop h))

end InputLeap
