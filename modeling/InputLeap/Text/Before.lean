import Mathlib.Data.List.Basic
import Mathlib.Data.List.Chain

/-!
# A mark before each occurrence of a value

A list is written with a mark before each occurrence of a value, and is read by leaving out each
mark that stands before one.  The value may have stood behind marks already.

## Main definitions

* `Text.putBefore` : the list with a mark `d` before each `e`.
* `Text.dropBefore` : the list without each `d` that an `e` follows.
* `Text.Preceded` : each `e` stands behind a `d`.

## Main results

* `Text.dropBefore_putBefore` : the marks that were written are left out, and no others.
* `Text.putBefore_dropBefore` : the marks that were left out are written again, if each value has
  one.
-/

namespace InputLeap

namespace Text

variable {α : Type*} [DecidableEq α] (d e : α)

/-- The list with a mark before each occurrence of the value. -/
def putBefore (s : List α) : List α := s.flatMap fun c => if c = e then [d, e] else [c]

/-- The list without each mark that the value follows. -/
def dropBefore : List α → List α
  | [] => []
  | c :: s => if c = d ∧ s.head? = some e then dropBefore s else c :: dropBefore s

/-- Each occurrence of the value that is not the first element stands behind a mark. -/
def Follows (s : List α) : Prop := s.IsChain fun a b => b = e → a = d

/-- Each occurrence of the value stands behind a mark. -/
structure Preceded (s : List α) : Prop where
  head : s.head? ≠ some e
  tail : Follows d e s

variable {d e} {s t : List α}

theorem putBefore_cons (c : α) (s : List α) :
    putBefore d e (c :: s) = (if c = e then [d] else []) ++ c :: putBefore d e s := by
  rw [putBefore, List.flatMap_cons]
  split_ifs with hc
  · rw [hc]
    rfl
  · rfl

theorem putBefore_append (s t : List α) :
    putBefore d e (s ++ t) = putBefore d e s ++ putBefore d e t := List.flatMap_append

theorem mem_putBefore {c : α} (h : c ∈ putBefore d e s) : c = d ∨ c ∈ s := by
  obtain ⟨b, hb, hc⟩ := List.mem_flatMap.1 h
  split_ifs at hc with hbe
  · rcases List.mem_cons.1 hc with hc | hc
    · exact .inl hc
    · exact .inr (by rwa [List.mem_singleton.1 hc, ← hbe])
  · exact .inr (by rwa [List.mem_singleton.1 hc])

/-- Where the value does not occur there is nothing to write. -/
theorem putBefore_of_not_mem (h : e ∉ s) : putBefore d e s = s := by
  induction s with
  | nil => rfl
  | cons c s ih =>
    obtain ⟨hc, hs⟩ := not_or.1 (List.mem_cons.not.1 h)
    rw [putBefore_cons, if_neg (Ne.symm hc), ih hs]
    rfl

/-- How much longer the list gets where its elements are written in several letters. -/
theorem length_flatMap_putBefore {β : Type*} (f : α → List β) (s : List α) :
    ((putBefore d e s).flatMap f).length =
      (s.flatMap f).length + s.count e * (f d).length := by
  induction s with
  | nil => exact (Nat.zero_add _).symm.trans (congrArg _ (Nat.zero_mul _).symm)
  | cons c s ih =>
    rw [putBefore_cons, List.flatMap_append, List.flatMap_cons, List.flatMap_cons,
      List.length_append, List.length_append, List.length_append, ih, List.count_cons]
    by_cases hc : c = e
    · rw [if_pos hc, if_pos (beq_iff_eq.2 hc), List.flatMap_singleton, Nat.succ_mul]
      omega
    · rw [if_neg hc, if_neg (beq_iff_eq.not.2 hc), List.flatMap_nil, List.length_nil,
        Nat.add_zero, Nat.zero_add, Nat.add_assoc]

theorem length_putBefore (s : List α) :
    (putBefore d e s).length = s.length + s.count e := by
  have hlength := @length_flatMap_putBefore _ _ d e _ (fun c => [c]) s
  rwa [List.flatMap_singleton', List.flatMap_singleton', List.length_singleton,
    Nat.mul_one] at hlength

/-- No value stands first behind what was written. -/
theorem head?_putBefore_ne (hne : d ≠ e) (s : List α) : (putBefore d e s).head? ≠ some e := by
  cases s with
  | nil => exact nofun
  | cons c s =>
    rw [putBefore_cons]
    split_ifs with hc
    · exact fun hhead => hne (Option.some.inj hhead)
    · exact fun hhead => hc (Option.some.inj hhead)

theorem follows_putBefore (hne : d ≠ e) (s : List α) : Follows d e (putBefore d e s) := by
  have hhead : ∀ (t : List α) (c b : α), b ∈ (putBefore d e t).head? → b = e → c = d := by
    rintro t c b hb rfl
    exact absurd (Option.mem_def.1 hb) (head?_putBefore_ne hne t)
  induction s with
  | nil => exact List.IsChain.nil
  | cons c s ih =>
    have hcons : Follows d e (c :: putBefore d e s) :=
      List.isChain_cons.2 ⟨fun b hb => hhead s c b hb, ih⟩
    rw [putBefore_cons]
    split_ifs with hc
    · exact List.isChain_cons.2 ⟨fun _ _ _ => rfl, hcons⟩
    · exact hcons

theorem preceded_putBefore (hne : d ≠ e) (s : List α) : Preceded d e (putBefore d e s) :=
  ⟨head?_putBefore_ne hne s, follows_putBefore hne s⟩

omit [DecidableEq α] in
theorem Preceded.of_isPrefix (h : Preceded d e s) (hpre : t <+: s) : Preceded d e t := by
  obtain ⟨r, rfl⟩ := hpre
  refine ⟨fun hhead => h.head ?_, h.tail.left_of_append⟩
  rw [List.head?_append, hhead]
  rfl

omit [DecidableEq α] in
theorem follows_of_not_mem (h : e ∉ s) : Follows d e s := by
  induction s with
  | nil => exact List.IsChain.nil
  | cons c s ih =>
    have hs : e ∉ s := fun hmem => h (List.mem_cons_of_mem c hmem)
    refine List.isChain_cons.2 ⟨?_, ih hs⟩
    rintro b hb rfl
    exact absurd (List.mem_of_mem_head? hb) hs

omit [DecidableEq α] in
/-- What has no value in it can be put behind. -/
theorem Preceded.append (h : Preceded d e s) (ht : e ∉ t) : Preceded d e (s ++ t) := by
  constructor
  · rw [List.head?_append]
    cases hs : s.head? with
    | none => exact fun hhead => ht (List.mem_of_mem_head? hhead)
    | some c => exact fun hhead => h.head (hs.trans hhead)
  · refine List.isChain_append.2 ⟨h.tail, follows_of_not_mem ht, ?_⟩
    rintro c - b hb rfl
    exact absurd (List.mem_of_mem_head? hb) ht

/-- **What was written is left out**, and what stood there before stays. -/
theorem dropBefore_putBefore (hne : d ≠ e) (s : List α) :
    dropBefore d e (putBefore d e s) = s := by
  induction s with
  | nil => rfl
  | cons c s ih =>
    have hhead := head?_putBefore_ne hne s
    have hcons : dropBefore d e (c :: putBefore d e s) = c :: s := by
      rw [dropBefore, if_neg fun h => hhead h.2, ih]
    rw [putBefore_cons]
    split_ifs with hc
    · rw [List.singleton_append, dropBefore, if_pos ⟨rfl, by rw [hc]; rfl⟩, hcons]
    · exact hcons

/-- What was left out is written again; a first value gets a mark that it did not have. -/
theorem putBefore_dropBefore_of_follows (hne : d ≠ e) (h : Follows d e s) :
    putBefore d e (dropBefore d e s) = (if s.head? = some e then [d] else []) ++ s := by
  induction s with
  | nil => rfl
  | cons c s ih =>
    obtain ⟨hhead, hs⟩ := List.isChain_cons.1 h
    have htail := ih hs
    have hfirst : (c :: s).head? = some e ↔ c = e := by rw [List.head?_cons, Option.some.injEq]
    rw [dropBefore]
    by_cases hmark : c = d ∧ s.head? = some e
    · -- the mark that is left out here is the one that the value behind it gets
      have hc : c ≠ e := fun hc => hne (hmark.1.symm.trans hc)
      rw [if_pos hmark, htail, if_pos hmark.2, if_neg (hfirst.not.2 hc), hmark.1]
      rfl
    · have hnext : s.head? ≠ some e := fun hnext => hmark ⟨hhead e hnext rfl, hnext⟩
      rw [if_neg hmark, putBefore_cons, htail, if_neg hnext]
      by_cases hc : c = e
      · rw [if_pos hc, if_pos (hfirst.2 hc)]
        rfl
      · rw [if_neg hc, if_neg (hfirst.not.2 hc)]
        rfl

/-- **What was left out is written again.** -/
theorem putBefore_dropBefore (hne : d ≠ e) (h : Preceded d e s) :
    putBefore d e (dropBefore d e s) = s := by
  rw [putBefore_dropBefore_of_follows hne h.tail, if_neg h.head]
  rfl

end Text

end InputLeap
