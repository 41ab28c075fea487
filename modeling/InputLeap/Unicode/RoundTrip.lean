import InputLeap.Unicode.Units
import Mathlib.Data.List.Basic

/-!
# UTF-8 to UTF-16 and back

Text that is converted to UTF-16 and back is the same, if the routine that converts it back is told
how long it is: the size of the string is cut to 32 bits before it is halved.

## Main definitions

* `Unicode.RoundTrip` : both conversions succeed and the second undoes the first.

## Main results

* `Unicode.UTF8ToUTF16_chars` : what the first conversion yields.
* `Unicode.roundTrip_iff` : text comes back if its size in UTF-16 fits.
-/

namespace InputLeap

namespace Unicode

variable {host : ByteOrder} {cs : List Char}

/-- The text in UTF-8 is the same after it was converted to UTF-16 and back, and neither conversion
reports an error. -/
def RoundTrip (host : ByteOrder) (src : Bytes) : Prop :=
  ∃ dst, UTF8ToUTF16 host src = some (dst, false) ∧ UTF16ToUTF8 host dst = some (src, false)

/-! ### To UTF-16 -/

theorem length_utf8EncodeChar_pos (c : Char) : 0 < (String.utf8EncodeChar c).length := by
  rw [String.length_utf8EncodeChar]
  exact c.utf8Size_pos

theorem length_utf8EncodeChar_of_le {c : Char} (h : 0x10000 ≤ c.toNat) :
    (String.utf8EncodeChar c).length = 4 := by
  rcases utf8EncodeChar_cases c with ⟨hc, henc⟩ | ⟨x, y, hx, hy, hc, -, henc⟩ |
    ⟨x, y, z, hx, hy, hz, hc, -, henc⟩ | ⟨x, y, z, w, -, -, -, -, -, -, henc⟩
  · exact absurd h (by omega)
  · exact absurd h (by omega)
  · exact absurd h (by omega)
  · rw [henc]
    rfl

/-- The loop reads one character after the other. -/
theorem fromUTF8Turns_chars {fuel : ℕ} (hchars : ∀ c ∈ cs, c.toNat ≠ 0xfffe)
    (hfuel : (cs.flatMap String.utf8EncodeChar).length ≤ fuel) :
    fromUTF8Turns fuel (cs.flatMap String.utf8EncodeChar) =
      some (cs.map fun c => (c.toNat, (String.utf8EncodeChar c).length)) := by
  induction cs generalizing fuel with
  | nil => cases fuel <;> rfl
  | cons c cs ih =>
    obtain ⟨hc, hchars⟩ := List.forall_mem_cons.1 hchars
    have hpos := length_utf8EncodeChar_pos c
    rw [List.flatMap_cons, List.length_append] at hfuel
    rw [List.flatMap_cons]
    cases fuel with
    | zero => exact absurd hfuel (by omega)
    | succ fuel =>
      have hturn := fromUTF8_char c (cs.flatMap String.utf8EncodeChar)
      have hdrop : (String.utf8EncodeChar c ++ cs.flatMap String.utf8EncodeChar).drop
          (String.utf8EncodeChar c).length = cs.flatMap String.utf8EncodeChar := List.drop_left
      rw [if_neg hc] at hturn
      cases hdata : String.utf8EncodeChar c ++ cs.flatMap String.utf8EncodeChar with
      | nil =>
        rw [hdata] at hturn
        cases hturn
      | cons b data =>
        rw [hdata] at hturn hdrop
        rw [fromUTF8Turns, hturn]
        dsimp only [Option.bind_eq_bind, Option.bind_some]
        rw [hdrop, ih hchars (by omega)]
        rfl

theorem toUTF16_char {c : Char} (hc : c.toNat ≠ 0xffff) :
    toUTF16 host c.toNat = ((encodeUTF16 c).flatMap (host.toBytes 2), false) := by
  have hscalar := char_cases c
  have hlow : ∀ x, x &&& 0x3ff = x % 0x400 := fun x => and_mask x 10
  have herror : (decide (c.toNat ≠ invalid) && decide (0x110000 ≤ c.toNat)) = false := by
    rw [Bool.and_eq_false_iff, decide_eq_false_iff_not (p := 0x110000 ≤ c.toNat)]
    exact .inr (by omega)
  have hvalid : c.toNat ≠ invalid := hc
  simp only [toUTF16, herror, hvalid, Bool.false_eq_true, or_self, if_false, hlow,
    Nat.shiftRight_eq_div_pow, encodeUTF16]
  split_ifs
  · rw [List.flatMap_singleton]
  · rw [List.flatMap_cons, List.flatMap_singleton]

/-- **What the conversion to UTF-16 yields.** -/
theorem UTF8ToUTF16_chars (hchars : ∀ c ∈ cs, c.toNat ≠ 0xfffe ∧ c.toNat ≠ 0xffff) :
    UTF8ToUTF16 host (cs.flatMap String.utf8EncodeChar) =
      some ((cs.flatMap encodeUTF16).flatMap (host.toBytes 2), false) := by
  rw [UTF8ToUTF16, decodeUTF8, fromUTF8Turns_chars (fun c hc => (hchars c hc).1) le_rfl,
    Option.map_some]
  refine congrArg some (Prod.ext ?_ ?_)
  · rw [List.flatMap_map, List.flatMap_assoc]
    refine List.flatMap_congr fun c hc => ?_
    rw [toUTF16_char (hchars c hc).2]
  · rw [List.any_map, List.any_eq_false]
    intro c hc
    rw [Function.comp_apply, toUTF16_char (hchars c hc).2]
    exact Bool.false_ne_true

/-! ### Back to UTF-8 -/

theorem text_cons (turn : Turn) (turns : List Turn) :
    Turn.text (turn :: turns) =
      ((toUTF8 turn.char).1 ++ (Turn.text turns).1,
        (turn.error || (toUTF8 turn.char).2) || (Turn.text turns).2) := rfl

theorem lt_of_mem_encodeUTF16 {c : Char} {u : ℕ} (hu : u ∈ encodeUTF16 c) : u < 65536 := by
  have hscalar := char_cases c
  unfold encodeUTF16 at hu
  split_ifs at hu
  · rw [List.mem_singleton] at hu
    omega
  · rw [List.mem_cons, List.mem_singleton] at hu
    omega

/-- The text of the units of some characters and of what is behind them. -/
theorem text_chars_append (cs : List Char) (e : List ℕ) :
    Turn.text (surrogateTurns (cs.flatMap encodeUTF16 ++ e)) =
      (cs.flatMap String.utf8EncodeChar ++ (Turn.text (surrogateTurns e)).1,
        (Turn.text (surrogateTurns e)).2) := by
  induction cs with
  | nil => rfl
  | cons c cs ih =>
    rw [List.flatMap_cons, List.append_assoc, surrogateTurns_encodeUTF16, text_cons, ih,
      toUTF8_char, List.flatMap_cons, List.append_assoc]
    rfl

/-- The text of all units. -/
theorem text_chars (cs : List Char) :
    Turn.text (surrogateTurns (cs.flatMap encodeUTF16)) =
      (cs.flatMap String.utf8EncodeChar, false) := by
  have hall := text_chars_append cs []
  rw [List.append_nil] at hall
  rw [hall]
  exact congrArg (·, false) (List.append_nil _)

/-- The text of some units is that of some characters; a pair that is cut becomes a replacement. -/
theorem text_take (n : ℕ) (hn : n < (cs.flatMap encodeUTF16).length) :
    ∃ (j : ℕ) (cut : Bytes), (cut = [] ∨ cut = (toUTF8 replacement).1) ∧
      (Turn.text (surrogateTurns ((cs.flatMap encodeUTF16).take n))).1 =
        (cs.take j).flatMap String.utf8EncodeChar ++ cut ∧
      cut.length < ((cs.drop j).flatMap String.utf8EncodeChar).length := by
  induction cs generalizing n with
  | nil => exact absurd hn (Nat.not_lt_zero n)
  | cons c cs ih =>
    have hpos := length_utf8EncodeChar_pos c
    rw [List.flatMap_cons, List.length_append] at hn
    rw [List.flatMap_cons]
    rcases Nat.lt_or_ge n (encodeUTF16 c).length with hlt | hge
    · rw [List.take_append_of_le_length hlt.le]
      cases n with
      | zero =>
        refine ⟨0, [], .inl rfl, rfl, ?_⟩
        rw [List.drop_zero, List.flatMap_cons, List.length_append]
        exact Nat.add_pos_left hpos _
      | succ n =>
        -- the first half of a pair
        have hlarge : 0x10000 ≤ c.toNat := by
          by_contra hsmall
          rw [encodeUTF16, if_pos (Nat.lt_of_not_le hsmall)] at hlt
          exact Nat.not_lt_zero n (Nat.lt_of_succ_lt_succ hlt)
        have hscalar := char_cases c
        refine ⟨0, (toUTF8 replacement).1, .inr rfl, ?_, ?_⟩
        · rw [encodeUTF16, if_neg (Nat.not_lt.2 hlarge)] at hlt ⊢
          obtain rfl : n = 0 := Nat.lt_one_iff.1 (Nat.succ_lt_succ_iff.1 hlt)
          rw [List.take_succ_cons, List.take_zero, surrogateTurns, if_neg (by omega)]
          rfl
        · rw [List.drop_zero, List.flatMap_cons, List.length_append]
          exact Nat.lt_of_lt_of_le (length_utf8EncodeChar_of_le hlarge).symm.le
            (Nat.le_add_right _ _)
    · obtain ⟨j, cut, hcut, htext, hlen⟩ := ih (n - (encodeUTF16 c).length) (by omega)
      refine ⟨j + 1, cut, hcut, ?_, hlen⟩
      rw [List.take_append, List.take_of_length_le hge, surrogateTurns_encodeUTF16, text_cons,
        toUTF8_char, htext, List.take_succ_cons, List.flatMap_cons, List.append_assoc]

theorem length_text_take (n : ℕ) (hn : n < (cs.flatMap encodeUTF16).length) :
    (Turn.text (surrogateTurns ((cs.flatMap encodeUTF16).take n))).1.length <
      (cs.flatMap String.utf8EncodeChar).length := by
  obtain ⟨j, cut, -, htext, hlen⟩ := text_take n hn
  rw [htext, List.length_append]
  calc ((cs.take j).flatMap String.utf8EncodeChar).length + cut.length
      < ((cs.take j).flatMap String.utf8EncodeChar).length +
          ((cs.drop j).flatMap String.utf8EncodeChar).length := Nat.add_lt_add_left hlen _
    _ = (cs.flatMap String.utf8EncodeChar).length := by
      rw [← List.length_append, ← List.flatMap_append, List.take_append_drop]

/-- No mark is seen where there is none. -/
theorem textUnits_chars (hchars : ∀ c ∈ cs, c.toNat ≠ 0xfffe)
    (hmark : ∀ c ∈ cs.head?, c.toNat ≠ 0xfeff) (n : ℕ) :
    textUnits ((cs.flatMap encodeUTF16).take n) = (cs.flatMap encodeUTF16).take n := by
  cases cs with
  | nil => rw [List.flatMap_nil, List.take_nil, textUnits]
  | cons c cs =>
    cases n with
    | zero => rfl
    | succ n =>
      have hc : c.toNat ≠ 0xfffe := hchars c List.mem_cons_self
      have hc' : c.toNat ≠ 0xfeff := hmark c rfl
      have hscalar := char_cases c
      rw [List.flatMap_cons]
      unfold encodeUTF16
      split_ifs
      · rw [List.singleton_append, List.take_succ_cons, textUnits, if_neg hc', if_neg hc]
      · rw [List.cons_append, List.take_succ_cons, textUnits, if_neg (by omega),
          if_neg (by omega)]

/-- What comes back, by the number of units that are converted. -/
theorem UTF16ToUTF8_chars (hchars : ∀ c ∈ cs, c.toNat ≠ 0xfffe)
    (hmark : ∀ c ∈ cs.head?, c.toNat ≠ 0xfeff) {n : ℕ} (hn : n ≤ (cs.flatMap encodeUTF16).length)
    (hsize : 2 * (cs.flatMap encodeUTF16).length % 2 ^ 32 / 2 = n) :
    UTF16ToUTF8 host ((cs.flatMap encodeUTF16).flatMap (host.toBytes 2)) =
      some (Turn.text (surrogateTurns ((cs.flatMap encodeUTF16).take n))) := by
  have hbound : ∀ u ∈ cs.flatMap encodeUTF16, u < 65536 := by
    intro u hu
    obtain ⟨c, -, hc⟩ := List.mem_flatMap.1 hu
    exact lt_of_mem_encodeUTF16 hc
  have hshift : (2 * (cs.flatMap encodeUTF16).length % 2 ^ 32) >>> 1 = n := by
    rw [Nat.shiftRight_eq_div_pow, ← hsize]
  rw [UTF16ToUTF8, doUTF16ToUTF8, length_flatMap_toBytes, hshift, markedTurns_utf16 hbound hn,
    textUnits_chars hchars hmark]
  rfl

/-- Text that comes back has fewer than `2 ^ 32` bytes in UTF-16. -/
theorem lt_of_roundTrip (hchars : ∀ c ∈ cs, c.toNat ≠ 0xfffe ∧ c.toNat ≠ 0xffff)
    (hmark : ∀ c ∈ cs.head?, c.toNat ≠ 0xfeff)
    (h : RoundTrip host (cs.flatMap String.utf8EncodeChar)) :
    2 * (cs.flatMap encodeUTF16).length < 2 ^ 32 := by
  obtain ⟨dst, hdst, hsrc⟩ := h
  obtain ⟨rfl, -⟩ := Prod.mk.inj (Option.some.inj ((UTF8ToUTF16_chars hchars).symm.trans hdst))
  by_contra hlarge
  have hshort : 2 * (cs.flatMap encodeUTF16).length % 2 ^ 32 / 2 <
      (cs.flatMap encodeUTF16).length := by omega
  rw [UTF16ToUTF8_chars (fun c hc => (hchars c hc).1) hmark hshort.le rfl] at hsrc
  have hless := length_text_take _ hshort
  rw [Option.some.inj hsrc] at hless
  exact lt_irrefl _ hless

/-- Text comes back if and only if it has fewer than `2 ^ 32` bytes in UTF-16. -/
theorem roundTrip_iff (hchars : ∀ c ∈ cs, c.toNat ≠ 0xfffe ∧ c.toNat ≠ 0xffff)
    (hmark : ∀ c ∈ cs.head?, c.toNat ≠ 0xfeff) :
    RoundTrip host (cs.flatMap String.utf8EncodeChar) ↔
      2 * (cs.flatMap encodeUTF16).length < 2 ^ 32 := by
  refine ⟨lt_of_roundTrip hchars hmark, fun hsmall => ?_⟩
  have hall : 2 * (cs.flatMap encodeUTF16).length % 2 ^ 32 / 2 =
      (cs.flatMap encodeUTF16).length := by omega
  refine ⟨_, UTF8ToUTF16_chars hchars, ?_⟩
  rw [UTF16ToUTF8_chars (fun c hc => (hchars c hc).1) hmark le_rfl hall, List.take_length,
    text_chars]

/-- Characters of all four lengths. -/
theorem roundTrip_four : RoundTrip .little (['a', 'é', '€', '😀'].flatMap String.utf8EncodeChar) :=
  (roundTrip_iff (by decide) fun c hc => by cases hc; decide).2 (by decide)

/-- The size of a text that repeats one letter. -/
theorem length_flatMap_replicate {α β : Type*} (f : α → List β) (a : α) (n : ℕ) :
    ((List.replicate n a).flatMap f).length = n * (f a).length := by
  rw [List.length_flatMap, List.map_replicate, List.sum_replicate_nat]

/-- Text of `2 ^ 31` letters does not come back. -/
theorem not_roundTrip : ¬∀ (cs : List Char), (∀ c ∈ cs, c.toNat ≠ 0xfffe ∧ c.toNat ≠ 0xffff) →
    (∀ c ∈ cs.head?, c.toNat ≠ 0xfeff) →
      RoundTrip .little (cs.flatMap String.utf8EncodeChar) := by
  intro h
  have hletter : ∀ c ∈ List.replicate (2 ^ 31) 'a', c = 'a' := fun c hc =>
    List.eq_of_mem_replicate hc
  have hchars : ∀ c ∈ List.replicate (2 ^ 31) 'a', c.toNat ≠ 0xfffe ∧ c.toNat ≠ 0xffff := by
    intro c hc
    rw [hletter c hc]
    decide
  have hmark : ∀ c ∈ (List.replicate (2 ^ 31) 'a').head?, c.toNat ≠ 0xfeff := by
    intro c hc
    rw [hletter c (List.mem_of_mem_head? hc)]
    decide
  have hsmall := lt_of_roundTrip hchars hmark (h _ hchars hmark)
  rw [length_flatMap_replicate] at hsmall
  exact absurd hsmall (by decide)

end Unicode

end InputLeap
