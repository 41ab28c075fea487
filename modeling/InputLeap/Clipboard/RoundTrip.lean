import InputLeap.Clipboard.Unmarshall

/-!
# Marshalled clipboards

## Main definitions

* `Clipboard.entries` : the formats of a clipboard as they travel.

## Main results

* `Clipboard.unmarshallAt_marshall` : what was marshalled is read back, also when there are formats
  in between that are not known.
* `Clipboard.unmarshall_eq` : reading by position and reading what is left come to the same.
-/

namespace InputLeap

namespace Clipboard

/-- The entries of a clipboard in the order of the formats. -/
def entries (c : Clipboard) : List Entry :=
  Format.all.filterMap fun f => (c.data f).map fun d => ⟨f.toNat, d.length, d⟩

variable {c : Clipboard} {es : List Entry} {isSigned : Bool} {time n index : ℕ} {data : Bytes}

theorem marshall_eq (c : Clipboard) : c.marshall = marshallEntries c.entries := by
  have hentries : c.entries = (Format.all.filterMap fun f => (c.data f).map fun d => (f, d)).map
      fun e => ⟨e.1.toNat, e.2.length, e.2⟩ := by
    rw [entries, List.map_filterMap]
    refine List.filterMap_congr fun f _ => ?_
    rw [Option.map_map]
    rfl
  rw [marshall, marshallEntries, hentries, List.length_map, List.flatMap_map]
  simp [Entry.bytes]

/-- Where no data are missing, entries fit if their numbers do. -/
theorem fits_of_whole (h : ∀ e ∈ es, e.number < 2 ^ 31 ∧ e.size < 2 ^ 32 ∧
    e.data.length = e.size) : Fits isSigned es := by
  induction es with
  | nil => trivial
  | cons e es ih =>
    obtain ⟨⟨hnumber, hsize, hlength⟩, h⟩ := List.forall_mem_cons.1 h
    exact ⟨by omega, hsize, by omega, .inl hlength, ih h⟩

theorem timeOwned_foldl_copyFormat (src : Clipboard) (l : List Format) (dst : Clipboard) :
    (l.foldl src.copyFormat dst).timeOwned = dst.timeOwned := by
  induction l generalizing dst with
  | nil => rfl
  | cons f l ih =>
    rw [List.foldl_cons, ih, copyFormat]
    cases src.data f with
    | none => rfl
    | some d => rfl

theorem ofNat?_toNat (f : Format) : Format.ofNat? f.toNat = some f := by
  cases f
  all_goals rfl

/-- The entries of a clipboard make the clipboard again. -/
theorem foldl_addEntry_entries (c : Clipboard) (time : ℕ) :
    c.entries.foldl addEntry (clear time) = ⟨c.data, time⟩ := by
  have hcopy : c.entries.foldl addEntry (clear time) =
      Format.all.foldl c.copyFormat (clear time) := by
    rw [entries, List.foldl_filterMap]
    congr 1
    funext dst f
    rw [copyFormat]
    cases hd : c.data f with
    | none => rfl
    | some d => exact addEntry_of_known (ofNat?_toNat f)
  have hdata : (Format.all.foldl c.copyFormat (clear time)).data = c.data := by
    funext f
    have hall : f ∈ Format.all := by cases f <;> decide
    rw [foldl_copyFormat_data, if_pos hall]
    exact Option.or_none
  have htime := timeOwned_foldl_copyFormat c Format.all (clear time)
  rw [hcopy]
  cases hfold : Format.all.foldl c.copyFormat (clear time) with
  | mk data' time' =>
    rw [hfold] at hdata htime
    obtain rfl : data' = c.data := hdata
    obtain rfl : time' = time := htime
    rfl

/-- Formats that are not known change nothing. -/
theorem foldl_addEntry_filter (es : List Entry) (c : Clipboard) :
    (es.filter fun e => e.number < numFormats).foldl addEntry c = es.foldl addEntry c := by
  rw [List.foldl_filter]
  congr 1
  funext c e
  split_ifs with hknown
  · rfl
  · exact (addEntry_of_unknown (ofNat?_eq_none_iff.2 (by simpa using hknown))).symm

theorem toNat_lt (f : Format) : f.toNat < numFormats := by
  cases f
  all_goals decide

/-- The entries of a clipboard are whole and known. -/
theorem mem_entries {e : Entry} (hsize : ∀ f d, c.data f = some d → d.length < 2 ^ 32)
    (h : e ∈ c.entries) : e.number < numFormats ∧ e.size < 2 ^ 32 ∧ e.data.length = e.size := by
  obtain ⟨f, -, he⟩ := List.mem_filterMap.1 h
  obtain ⟨d, hd, rfl⟩ := Option.map_eq_some_iff.1 he
  exact ⟨toNat_lt f, hsize f d hd, rfl⟩

/-- Entries are read back from the form in which they travel. -/
theorem unmarshallAt_marshallEntries
    (h : ∀ e ∈ es, e.number < 2 ^ 31 ∧ e.size < 2 ^ 32 ∧ e.data.length = e.size)
    (hlength : es.length < 2 ^ 32) :
    unmarshallAt isSigned (marshallEntries es) time = some (es.foldl addEntry (clear time)) :=
  unmarshallAt_eq_some_iff.2
    ⟨es, [], hlength, fits_of_whole h, (List.append_nil _).symm, rfl⟩

/-- **A clipboard is read back** with all its formats, and travels on as it came. Formats in between
whose numbers are not known to the receiver are skipped. -/
theorem unmarshallAt_marshall (hsize : ∀ f d, c.data f = some d → d.length < 2 ^ 32)
    (isSigned : Bool) (time : ℕ) :
    unmarshallAt isSigned c.marshall time = some ⟨c.data, time⟩ ∧
      (⟨c.data, time⟩ : Clipboard).marshall = c.marshall ∧
      ∀ es : List Entry, es.filter (fun e => e.number < numFormats) = c.entries →
        (∀ e ∈ es, e.number < 2 ^ 31 ∧ e.size < 2 ^ 32 ∧ e.data.length = e.size) →
        es.length < 2 ^ 32 →
          unmarshallAt isSigned (marshallEntries es) time = some ⟨c.data, time⟩ := by
  refine ⟨?_, rfl, ?_⟩
  · have hlength : c.entries.length ≤ Format.all.length := List.length_filterMap_le _ _
    have hall : Format.all.length = 8 := rfl
    rw [marshall_eq, unmarshallAt_marshallEntries ?_ (by omega), foldl_addEntry_entries]
    intro e he
    obtain ⟨hknown, hwhole⟩ := mem_entries hsize he
    exact ⟨hknown.trans (by decide), hwhole⟩
  · intro es hknown hwhole hlength
    rw [unmarshallAt_marshallEntries hwhole hlength, ← foldl_addEntry_filter, hknown,
      foldl_addEntry_entries]

theorem unmarshallAt_marshall_text : unmarshallAt true
    (marshallEntries [⟨0, 1, [104]⟩, ⟨8, 2, [1, 2]⟩]) 3 =
      some ⟨((clear 0).add .text [104]).data, 3⟩ := by
  refine (unmarshallAt_marshall (fun f d hd => ?_) true 3).2.2 _ rfl (by decide) (by decide)
  rw [add] at hd
  dsimp only at hd
  split_ifs at hd
  · obtain rfl := Option.some.inj hd
    decide
  · cases hd

/-! ### Reading what is left -/

theorem readUInt32_drop (data : Bytes) (index : ℕ) : readUInt32 (data.drop index) =
    (readUInt32At data index).map fun v => (v, data.drop (index + 4)) := by
  refine Option.ext fun r => ?_
  obtain ⟨v, rest⟩ := r
  rw [readUInt32_eq_some_iff, Option.map_eq_some_iff]
  constructor
  · rintro ⟨hv, hdrop⟩
    have hrest : data.drop (index + 4) = rest := by
      rw [← List.drop_drop, hdrop]
      exact List.drop_left' rfl
    refine ⟨v, readUInt32At_eq_some_iff.2 ⟨hv, hrest ▸ hdrop⟩, ?_⟩
    rw [hrest]
  · rintro ⟨_, hread, h⟩
    obtain ⟨rfl, rfl⟩ := Prod.mk.inj h
    exact readUInt32At_eq_some_iff.1 hread

theorem unmarshallFormats_drop : unmarshallFormats n (data.drop index) c =
    readFormats false data n index c := by
  induction n generalizing index c with
  | zero => rfl
  | succ n ih =>
    rw [unmarshallFormats, readFormats, readUInt32_drop]
    cases hv : readUInt32At data index with
    | none => rfl
    | some v =>
      have hlt := (readUInt32At_eq_some_iff.1 hv).1
      simp only [Option.bind_eq_bind, Option.map_some, Option.bind_some, readUInt32_drop,
        addAt_toEFormat hlt, toEFormat_lt_iff hlt, Bool.false_eq_true, false_and, false_or,
        if_false]
      cases readUInt32At data (index + 4) with
      | none => rfl
      | some size =>
        simp only [Option.map_some, Option.bind_some, slice?_eq_ite, List.drop_drop]
        cases hf : Format.ofNat? v with
        | none =>
          rw [if_neg (not_lt.2 (ofNat?_eq_none_iff.1 hf))]
          exact ih
        | some f =>
          rw [if_pos (toNat_of_ofNat? hf ▸ toNat_lt f)]
          split_ifs
          · rfl
          · exact ih

/-- **Reading by position** and reading what is left come to the same if enumerations are
unsigned. -/
theorem unmarshall_eq (data : Bytes) (time : ℕ) :
    unmarshall data time = unmarshallAt false data time := by
  have hread := readUInt32_drop data 0
  rw [List.drop_zero] at hread
  rw [unmarshall, unmarshallAt, hread]
  cases readUInt32At data 0 with
  | none => rfl
  | some n => exact unmarshallFormats_drop

end Clipboard

end InputLeap
