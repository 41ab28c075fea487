import InputLeap.Maps.Entries

/-!
# The nearest entries of a map

Lookups by the place of a key in the order: the last entry that is not behind it, and the first one
that is.

## Main results

* `MapEntry.getEntryLE?_eq_some_iff`, `MapEntry.getEntryLE?_eq_none_iff` : the last entry whose key
  is not behind a key.
* `MapEntry.getEntryGT?_eq_some_iff`, `MapEntry.getEntryGT?_eq_none_iff` : the first entry whose key
  is behind a key.
-/

namespace InputLeap

/-- What is found first in an ordered list comes before everything else that could be found. -/
theorem find?_eq_some_iff_of_pairwise {α : Type*} {r : α → α → Prop} {p : α → Bool} {l : List α}
    {a : α} (hl : l.Pairwise r) (hirrefl : ∀ a b, r a b → ¬r b a) :
    l.find? p = some a ↔ a ∈ l ∧ p a = true ∧ ∀ b ∈ l, p b = true → b = a ∨ r a b := by
  rw [List.find?_eq_some_iff_append]
  constructor
  · rintro ⟨ha, front, back, rfl, hfront⟩
    refine ⟨List.mem_append_right _ List.mem_cons_self, ha, ?_⟩
    intro b hb hp
    rcases List.mem_append.1 hb with hb | hb
    · have hnot := hfront b hb
      rw [hp] at hnot
      cases hnot
    · rcases List.mem_cons.1 hb with rfl | hb
      · exact .inl rfl
      · obtain ⟨-, hback, -⟩ := List.pairwise_append.1 hl
        exact .inr ((List.pairwise_cons.1 hback).1 b hb)
  · rintro ⟨hmem, ha, hfirst⟩
    obtain ⟨front, back, rfl⟩ := List.append_of_mem hmem
    refine ⟨ha, front, back, rfl, fun b hb => ?_⟩
    rw [Bool.not_eq_true', Bool.eq_false_iff]
    intro hp
    obtain ⟨-, -, hbefore⟩ := List.pairwise_append.1 hl
    have hba : r b a := hbefore b hb a List.mem_cons_self
    rcases hfirst b (List.mem_append_left _ hb) hp with rfl | hab
    · exact hirrefl b b hba hba
    · exact hirrefl b a hba hab

namespace MapEntry

variable {α β : Type*} {cmp : α → α → Ordering} [Std.TransCmp cmp] {t : Std.TreeMap α β cmp}
  {k a b : α} {v w : β}

theorem mem_toList_iff : (a, v) ∈ t.toList ↔ MapEntry t a v :=
  Std.TreeMap.mem_toList_iff_getKey?_eq_some_and_getElem?_eq_some

theorem getEntryGT?_eq_find? (t : Std.TreeMap α β cmp) (k : α) :
    t.getEntryGT? k = t.toList.find? fun e => (cmp e.1 k).isGT := by
  let _ : Ord α := ⟨cmp⟩
  change Std.DTreeMap.Internal.Impl.Const.getEntryGT? k t.inner.inner =
    (Std.DTreeMap.Internal.Impl.Const.toList t.inner.inner).find? _
  rw [Std.DTreeMap.Internal.Impl.Const.getEntryGT?_eq_map,
    Std.DTreeMap.Internal.Impl.getEntryGT?_eq_find? t.inner.wf.ordered,
    Std.DTreeMap.Internal.Impl.Const.toList_eq_toListModel_map, List.find?_map]
  rfl

theorem getEntryLE?_eq_find? (t : Std.TreeMap α β cmp) (k : α) :
    t.getEntryLE? k = t.toList.reverse.find? fun e => (cmp e.1 k).isLE := by
  let _ : Ord α := ⟨cmp⟩
  change Std.DTreeMap.Internal.Impl.Const.getEntryLE? k t.inner.inner =
    (Std.DTreeMap.Internal.Impl.Const.toList t.inner.inner).reverse.find? _
  rw [Std.DTreeMap.Internal.Impl.Const.getEntryLE?_eq_map,
    Std.DTreeMap.Internal.Impl.getEntryLE?_eq_findRev? t.inner.wf.ordered,
    List.findRev?_eq_find?_reverse, Std.DTreeMap.Internal.Impl.Const.toList_eq_toListModel_map,
    ← List.map_reverse, List.find?_map]
  rfl

theorem not_lt_of_lt (h : cmp a b = .lt) : cmp b a ≠ .lt := by
  intro hlt
  have hself : cmp a a = .lt := Std.TransCmp.lt_trans h hlt
  have hrefl : cmp a a = .eq := Std.ReflCmp.compare_self
  rw [hrefl] at hself
  cases hself

/-- **The last entry that is not behind a key.** -/
theorem getEntryLE?_eq_some_iff : t.getEntryLE? k = some (a, v) ↔
    MapEntry t a v ∧ (cmp a k).isLE = true ∧
      ∀ b w, MapEntry t b w → (cmp b k).isLE = true → b = a ∨ cmp b a = .lt := by
  have hpairwise : t.toList.reverse.Pairwise fun e e' => cmp e'.1 e.1 = .lt :=
    List.pairwise_reverse.2 Std.TreeMap.ordered_keys_toList
  rw [getEntryLE?_eq_find?,
    find?_eq_some_iff_of_pairwise hpairwise fun _ _ h => not_lt_of_lt h, List.mem_reverse,
    mem_toList_iff]
  refine and_congr_right fun hentry => and_congr_right fun _ => ?_
  constructor
  · intro h b w hb hle
    refine (h (b, w) (List.mem_reverse.2 (mem_toList_iff.2 hb)) hle).imp_left ?_
    exact fun heq => congrArg Prod.fst heq
  · rintro h ⟨b, w⟩ hmem hle
    have hb := mem_toList_iff.1 (List.mem_reverse.1 hmem)
    refine (h b w hb hle).imp_left ?_
    rintro rfl
    rw [hentry.unique_value hb]

theorem getEntryLE?_eq_none_iff :
    t.getEntryLE? k = none ↔ ∀ b w, MapEntry t b w → ¬(cmp b k).isLE = true := by
  rw [getEntryLE?_eq_find?, List.find?_eq_none]
  constructor
  · intro h b w hb
    exact h (b, w) (List.mem_reverse.2 (mem_toList_iff.2 hb))
  · rintro h ⟨b, w⟩ hmem
    exact h b w (mem_toList_iff.1 (List.mem_reverse.1 hmem))

/-- **The first entry that is behind a key.** -/
theorem getEntryGT?_eq_some_iff : t.getEntryGT? k = some (a, v) ↔
    MapEntry t a v ∧ (cmp a k).isGT = true ∧
      ∀ b w, MapEntry t b w → (cmp b k).isGT = true → b = a ∨ cmp a b = .lt := by
  rw [getEntryGT?_eq_find?, find?_eq_some_iff_of_pairwise Std.TreeMap.ordered_keys_toList
    fun _ _ h => not_lt_of_lt h, mem_toList_iff]
  refine and_congr_right fun hentry => and_congr_right fun _ => ?_
  constructor
  · intro h b w hb hgt
    refine (h (b, w) (mem_toList_iff.2 hb) hgt).imp_left ?_
    exact fun heq => congrArg Prod.fst heq
  · rintro h ⟨b, w⟩ hmem hgt
    have hb := mem_toList_iff.1 hmem
    refine (h b w hb hgt).imp_left ?_
    rintro rfl
    rw [hentry.unique_value hb]

theorem getEntryGT?_eq_none_iff :
    t.getEntryGT? k = none ↔ ∀ b w, MapEntry t b w → ¬(cmp b k).isGT = true := by
  rw [getEntryGT?_eq_find?, List.find?_eq_none]
  constructor
  · intro h b w hb
    exact h (b, w) (mem_toList_iff.2 hb)
  · rintro h ⟨b, w⟩ hmem
    exact h b w (mem_toList_iff.1 hmem)

end MapEntry

end InputLeap
