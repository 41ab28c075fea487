import Std.Data.TreeMap.Lemmas
import Mathlib.Tactic.SplitIfs

/-!
# Entries of maps

The keys of a map are compared by an order in which different keys may count as equal.  A lookup
then finds a value under any key that counts as equal to the one that is stored.  `MapEntry` is
about the keys as they are stored.

## Main definitions

* `MapEntry t k v` : the map stores the value under exactly this key.

## Main results

* `getElem?_eq_some_iff` : what a lookup finds, in terms of entries.
* `mapEntry_insert`, `mapEntry_insertIfNew`, `mapEntry_erase`, `mapEntry_filter`, `mapEntry_map` :
  the entries after each operation.
-/

namespace InputLeap

/-- The map stores the value under exactly this key. -/
def MapEntry {α β : Type*} {cmp : α → α → Ordering} (t : Std.TreeMap α β cmp) (k : α) (v : β) :
    Prop := t.getKey? k = some k ∧ t[k]? = some v

namespace MapEntry

variable {α β γ : Type*} {cmp : α → α → Ordering} [Std.TransCmp cmp] {t : Std.TreeMap α β cmp}
  {k k' n : α} {v v' : β}

omit [Std.TransCmp cmp] in
theorem unique_value (h : MapEntry t k v) (h' : MapEntry t k v') : v = v' :=
  Option.some.inj (h.2.symm.trans h'.2)

/-- Entries whose keys count as equal are the same. -/
theorem eq_of_cmp (h : MapEntry t k v) (h' : MapEntry t k' v') (hk : cmp k k' = .eq) : k = k' := by
  have hkey : t.getKey? k = t.getKey? k' := Std.TreeMap.getKey?_congr hk
  exact Option.some.inj (h.1.symm.trans (hkey.trans h'.1))

theorem cmp_getKey? (h : t.getKey? n = some k) : cmp k n = .eq := by
  have hall := Std.TreeMap.compare_getKey?_self (t := t) (k := n)
  simpa [h] using hall

/-- The key that is stored is stored under itself. -/
theorem getKey?_getKey? (h : t.getKey? n = some k) : t.getKey? k = some k := by
  rw [Std.TreeMap.getKey?_congr (cmp_getKey? h), h]

/-- A lookup finds the value of the entry whose key counts as equal. -/
theorem getElem?_eq_some_iff : t[n]? = some v ↔ ∃ k, cmp n k = .eq ∧ MapEntry t k v := by
  constructor
  · intro h
    have hmem : n ∈ t := Std.TreeMap.mem_iff_isSome_getElem?.2 (Option.isSome_of_eq_some h)
    obtain ⟨k, hk⟩ := Option.isSome_iff_exists.1 (Std.TreeMap.mem_iff_isSome_getKey?.1 hmem)
    have hcmp : cmp k n = .eq := cmp_getKey? hk
    refine ⟨k, Std.OrientedCmp.eq_symm hcmp, getKey?_getKey? hk, ?_⟩
    rw [Std.TreeMap.getElem?_congr hcmp, h]
  · rintro ⟨k, hcmp, hentry⟩
    rw [Std.TreeMap.getElem?_congr hcmp, hentry.2]

theorem mem_iff : n ∈ t ↔ ∃ k v, cmp n k = .eq ∧ MapEntry t k v := by
  rw [Std.TreeMap.mem_iff_isSome_getElem?, Option.isSome_iff_exists]
  simp only [getElem?_eq_some_iff]
  exact exists_comm

theorem mem (h : MapEntry t k v) : k ∈ t := mem_iff.2 ⟨k, v, Std.ReflCmp.compare_self, h⟩

/-- The key is stored as it is spelled. -/
theorem getKey?_eq_some_self_iff : t.getKey? k = some k ↔ ∃ v, MapEntry t k v := by
  constructor
  · intro h
    have hmem : k ∈ t := Std.TreeMap.mem_iff_isSome_getKey?.2 (Option.isSome_of_eq_some h)
    obtain ⟨v, hv⟩ := Option.isSome_iff_exists.1 (Std.TreeMap.mem_iff_isSome_getElem?.1 hmem)
    exact ⟨v, h, hv⟩
  · rintro ⟨v, h⟩
    exact h.1

omit [Std.TransCmp cmp] in
theorem not_mapEntry_empty : ¬MapEntry (∅ : Std.TreeMap α β cmp) k v := by
  simp [MapEntry]

theorem mapEntry_erase : MapEntry (t.erase n) k v ↔ cmp n k ≠ .eq ∧ MapEntry t k v := by
  unfold MapEntry
  rw [Std.TreeMap.getKey?_erase, Std.TreeMap.getElem?_erase]
  split_ifs with h <;> simp [h]

theorem mapEntry_insert :
    MapEntry (t.insert n v') k v ↔ k = n ∧ v = v' ∨ cmp n k ≠ .eq ∧ MapEntry t k v := by
  unfold MapEntry
  rw [Std.TreeMap.getKey?_insert, Std.TreeMap.getElem?_insert]
  split_ifs with h
  · simp [h, eq_comm]
  · have hne : k ≠ n := by
      rintro rfl
      exact h Std.ReflCmp.compare_self
    simp [h, hne]

theorem mapEntry_insertIfNew (hn : n ∉ t) :
    MapEntry (t.insertIfNew n v') k v ↔ k = n ∧ v = v' ∨ MapEntry t k v := by
  have hnone : cmp n k = .eq → ¬MapEntry t k v := fun hcmp h => hn (mem_iff.2 ⟨k, v, hcmp, h⟩)
  unfold MapEntry at hnone ⊢
  rw [Std.TreeMap.getKey?_insertIfNew, Std.TreeMap.getElem?_insertIfNew]
  by_cases h : cmp n k = .eq
  · rw [if_pos ⟨h, hn⟩, if_pos ⟨h, hn⟩, or_iff_left (hnone h), Option.some.injEq,
      Option.some.injEq, @eq_comm _ n, @eq_comm _ v']
  · have hne : k ≠ n := by
      rintro rfl
      exact h Std.ReflCmp.compare_self
    simp [h, hne]

/-- Nothing that is there is replaced. -/
theorem insertIfNew (h : MapEntry t k v) : MapEntry (t.insertIfNew n v') k v := by
  unfold MapEntry at h ⊢
  rw [Std.TreeMap.getKey?_insertIfNew, Std.TreeMap.getElem?_insertIfNew]
  have hnew : ¬(cmp n k = .eq ∧ n ∉ t) := fun ⟨hcmp, hn⟩ => hn (mem_iff.2 ⟨k, v, hcmp, h⟩)
  rw [if_neg hnew, if_neg hnew]
  exact h

theorem mapEntry_filter {f : α → β → Bool} :
    MapEntry (t.filter f) k v ↔ MapEntry t k v ∧ f k v = true := by
  unfold MapEntry
  rw [Std.TreeMap.getKey?_filter, Option.pfilter_eq_some_iff]
  constructor
  · rintro ⟨⟨hkey, -⟩, hv⟩
    rw [Std.TreeMap.getElem?_filter_of_getKey?_eq_some hkey, Option.filter_eq_some_iff] at hv
    exact ⟨⟨hkey, hv.1⟩, hv.2⟩
  · rintro ⟨⟨hkey, hv⟩, hf⟩
    have hget := (Std.TreeMap.getElem?_eq_some_iff.1 hv).2
    refine ⟨⟨hkey, by rw [hget, hf]⟩, ?_⟩
    rw [Std.TreeMap.getElem?_filter_of_getKey?_eq_some hkey, Option.filter_eq_some_iff]
    exact ⟨hv, hf⟩

theorem mapEntry_map {f : α → β → γ} {w : γ} :
    MapEntry (t.map f) k w ↔ ∃ v, MapEntry t k v ∧ w = f k v := by
  unfold MapEntry
  rw [Std.TreeMap.getKey?_map]
  constructor
  · rintro ⟨hkey, hw⟩
    rw [Std.TreeMap.getElem?_map_of_getKey?_eq_some hkey] at hw
    obtain ⟨v, hv, hf⟩ := Option.map_eq_some_iff.1 hw
    exact ⟨v, ⟨hkey, hv⟩, hf.symm⟩
  · rintro ⟨v, ⟨hkey, hv⟩, rfl⟩
    refine ⟨hkey, ?_⟩
    rw [Std.TreeMap.getElem?_map_of_getKey?_eq_some hkey, hv]
    rfl

theorem getElem?_map {f : β → γ} : (t.map fun _ => f)[n]? = t[n]?.map f := by
  ext w
  rw [getElem?_eq_some_iff, Option.map_eq_some_iff]
  simp only [mapEntry_map, getElem?_eq_some_iff]
  constructor
  · rintro ⟨k, hcmp, v, h, rfl⟩
    exact ⟨v, ⟨k, hcmp, h⟩, rfl⟩
  · rintro ⟨v, ⟨k, hcmp, h⟩, rfl⟩
    exact ⟨k, hcmp, v, h, rfl⟩

end MapEntry

end InputLeap
