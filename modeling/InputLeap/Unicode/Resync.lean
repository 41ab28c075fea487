import InputLeap.Text.Swallow
import InputLeap.Unicode.Units
import Mathlib.Algebra.BigOperators.Group.List.Basic

/-!
# Reading on after malformed input

The loops take every byte and unit in some turn.  A character that is well formed is read in its
place if a turn begins there, so it depends on what stands before it alone.

## Main definitions

* `Unicode.ProducedAt` : a turn of a loop begins at a place and adds a character.

## Main results

* `Unicode.decodeUTF8_spec` : the loop over UTF-8 takes all bytes and no others.
* `Unicode.producedAt_iff` : which characters are produced in their place.
-/

namespace InputLeap

namespace Unicode

/-- Some turn begins at the place and adds the character.  Turns are characters and sizes. -/
def ProducedAt (turns : List (ℕ × ℕ)) (place c : ℕ) : Prop :=
  ∃ before size after, turns = before ++ (c, size) :: after ∧ (before.map Prod.snd).sum = place

theorem producedAt_cons {turn : ℕ × ℕ} {turns : List (ℕ × ℕ)} {place c : ℕ} :
    ProducedAt (turn :: turns) place c ↔
      place = 0 ∧ turn.1 = c ∨ turn.2 ≤ place ∧ ProducedAt turns (place - turn.2) c := by
  constructor
  · rintro ⟨before, size, after, hturns, hsum⟩
    cases before with
    | nil =>
      obtain ⟨rfl, -⟩ := List.cons.inj hturns
      exact .inl ⟨hsum.symm, rfl⟩
    | cons first before =>
      obtain ⟨rfl, rfl⟩ := List.cons.inj hturns
      rw [List.map_cons, List.sum_cons] at hsum
      exact .inr ⟨by omega, before, size, after, rfl, by omega⟩
  · rintro (⟨rfl, rfl⟩ | ⟨hle, before, size, after, rfl, hsum⟩)
    · exact ⟨[], turn.2, turns, rfl, rfl⟩
    · refine ⟨turn :: before, size, after, rfl, ?_⟩
      rw [List.map_cons, List.sum_cons]
      omega

/-! ### Bytes -/

/-- **The loop takes all bytes and no others.** -/
theorem fromUTF8Turns_spec {fuel : ℕ} {data : Bytes} (hfuel : data.length ≤ fuel) :
    ∃ turns, fromUTF8Turns fuel data = some turns ∧
      (turns.map Prod.snd).sum = data.length := by
  induction fuel generalizing data with
  | zero =>
    obtain rfl := List.length_eq_zero_iff.1 (Nat.le_zero.1 hfuel)
    exact ⟨[], rfl, rfl⟩
  | succ fuel ih =>
    cases data with
    | nil => exact ⟨[], rfl, rfl⟩
    | cons b data =>
      obtain ⟨c, size, hturn, hpos, hle, -, -⟩ := fromUTF8_spec (List.cons_ne_nil b data)
      have hdrop : ((b :: data).drop size).length ≤ fuel := by
        rw [List.length_drop]
        omega
      obtain ⟨turns, hturns, hsum⟩ := ih hdrop
      refine ⟨(c, size) :: turns, ?_, ?_⟩
      · rw [fromUTF8Turns, hturn, Option.bind_eq_bind, Option.bind_some, hturns]
        rfl
      · rw [List.map_cons, List.sum_cons, hsum, List.length_drop]
        omega

theorem decodeUTF8_spec (src : Bytes) :
    ∃ turns, decodeUTF8 src = some turns ∧ (turns.map Prod.snd).sum = src.length :=
  fromUTF8Turns_spec le_rfl

/-- A turn does not pass the place where a character begins, unless it takes everything. -/
theorem size_le_of_not_overreaches {b rest : Bytes} {c size : ℕ}
    (hturn : fromUTF8 (b ++ rest) = some (c, size)) (hb : b ≠ [])
    (hover : overreaches (b ++ rest) = false) (hrest : ¬ContinuesAt rest 0) :
    size ≤ b.length ∧ ∀ p, p < size → overreaches ((b ++ rest).drop p) = false := by
  obtain ⟨c', size', hturn', hpos, hle, -, hcont⟩ :=
    @fromUTF8_spec (b ++ rest) (List.append_ne_nil_of_left_ne_nil hb rest)
  obtain ⟨rfl, rfl⟩ := Prod.mk.inj (Option.some.inj (hturn'.symm.trans hturn))
  refine ⟨?_, fun p hp => ?_⟩
  · by_contra hlt
    have hblen : 0 < b.length := List.length_pos_iff.2 hb
    obtain ⟨x, hx, hxcont⟩ := hcont hover b.length hblen (Nat.not_le.1 hlt)
    rw [List.getElem?_append_right le_rfl, Nat.sub_self] at hx
    exact hrest ⟨x, hx, hxcont⟩
  · rcases Nat.eq_zero_or_pos p with rfl | hppos
    · exact hover
    · exact not_overreaches_of_continuesAt (hcont hover p hppos hp)

/-- What is read at the place where a character begins. -/
theorem producedAt_fromUTF8Turns {fuel : ℕ} {b rest : Bytes} {turns : List (ℕ × ℕ)} {c c₀ n₀ : ℕ}
    (hturns : fromUTF8Turns fuel (b ++ rest) = some turns)
    (hfirst : fromUTF8 rest = some (c₀, n₀)) (hn₀ : 0 < n₀) (hrest : ¬ContinuesAt rest 0) :
    ProducedAt turns b.length c ↔
      (∀ p < b.length, overreaches ((b ++ rest).drop p) = false) ∧ c₀ = c := by
  induction fuel generalizing b turns with
  | zero =>
    cases hdata : b ++ rest with
    | nil =>
      obtain ⟨-, rfl⟩ := List.append_eq_nil_iff.1 hdata
      cases hfirst
    | cons x data =>
      rw [hdata] at hturns
      cases hturns
  | succ fuel ih =>
    cases hdata : b ++ rest with
    | nil =>
      obtain ⟨-, rfl⟩ := List.append_eq_nil_iff.1 hdata
      cases hfirst
    | cons x data =>
      rw [hdata, fromUTF8Turns, ← hdata] at hturns
      obtain ⟨⟨c₁, size⟩, hturn, hturns⟩ := Option.bind_eq_some_iff.1 hturns
      obtain ⟨later, hlater, hturns⟩ := Option.bind_eq_some_iff.1 hturns
      obtain rfl := Option.some.inj hturns
      rw [producedAt_cons, ← hdata]
      cases b with
      | nil =>
        -- the turn begins at the place
        rw [List.nil_append, hfirst] at hturn
        obtain ⟨rfl, rfl⟩ := Prod.mk.inj (Option.some.inj hturn)
        simp only [List.length_nil, Nat.not_lt_zero, false_implies, implies_true, true_and]
        exact or_iff_left fun h => absurd hn₀ (Nat.not_lt.2 h.1)
      | cons y b =>
        have hne : (y :: b).length ≠ 0 := Nat.succ_ne_zero _
        rw [or_iff_right fun h => hne h.1]
        cases hover : overreaches (y :: b ++ rest) with
        | true =>
          obtain ⟨c', size', hturn', hpos, hle, hall, -⟩ :=
            @fromUTF8_spec (y :: b ++ rest) (List.cons_ne_nil _ _)
          obtain ⟨rfl, rfl⟩ := Prod.mk.inj (Option.some.inj (hturn'.symm.trans hturn))
          refine iff_of_false (fun h => ?_) fun h => ?_
          · -- it takes what is left
            have hsize := hall hover
            have hpos' : 0 < rest.length := by
              cases rest with
              | nil => cases hfirst
              | cons _ _ => exact Nat.succ_pos _
            rw [List.length_append] at hsize
            have hsmall : size' ≤ (y :: b).length := h.1
            omega
          · have hstart := h.1 0 (Nat.succ_pos _)
            rw [List.drop_zero, hover] at hstart
            cases hstart
        | false =>
          obtain ⟨hsmall, hbefore⟩ :=
            size_le_of_not_overreaches hturn (List.cons_ne_nil y b) hover hrest
          have hdrop : (y :: b ++ rest).drop size = (y :: b).drop size ++ rest :=
            List.drop_append_of_le_length hsmall
          have hlater' : fromUTF8Turns fuel ((y :: b).drop size ++ rest) = some later :=
            hdrop ▸ hlater
          have hih := ih hlater'
          rw [List.length_drop] at hih
          rw [and_iff_right hsmall, hih, ← hdrop]
          refine and_congr_left fun _ => ⟨fun h p hp => ?_, fun h p hp => ?_⟩
          · rcases Nat.lt_or_ge p size with hlt | hge
            · exact hbefore p hlt
            · have hlate := h (p - size) (by omega)
              rwa [List.drop_drop, Nat.add_sub_cancel' hge] at hlate
          · rw [List.drop_drop]
            exact h (size + p) (by omega)

/-! ### Units -/

/-- The unit is the first one of a pair. -/
def isHigh (u : ℕ) : Bool := 0xd800 ≤ u && u ≤ 0xdbff

theorem isHigh_iff {u : ℕ} : isHigh u = true ↔ 0xd800 ≤ u ∧ u ≤ 0xdbff := by
  simp only [isHigh, Bool.and_eq_true, decide_eq_true_eq]

/-- The number of units at the end that are the first ones of pairs. -/
def trailingHighs (b : List ℕ) : ℕ := (b.reverse.takeWhile isHigh).length

/-- The character and the size of a turn. -/
def Turn.pair (turn : Turn) : ℕ × ℕ := (turn.char, turn.size)

/-- What a turn takes, when a unit is left behind its first. -/
theorem surrogateTurns_cons (u u' : ℕ) (rest : List ℕ) :
    ∃ turn, turn.size = (if isHigh u then 2 else 1) ∧ surrogateTurns (u :: u' :: rest) =
      turn :: surrogateTurns (if isHigh u then rest else u' :: rest) := by
  rw [surrogateTurns]
  by_cases hhigh : isHigh u = true
  · obtain ⟨hlow, hle⟩ := isHigh_iff.1 hhigh
    have hsurrogate : ¬(u < 0xd800 ∨ 0xdfff < u) := by omega
    rw [if_neg hsurrogate, if_pos hle, if_pos hhigh, if_pos hhigh]
    refine ⟨_, ?_, rfl⟩
    split_ifs <;> rfl
  · rw [if_neg hhigh, if_neg hhigh]
    rw [isHigh_iff] at hhigh
    by_cases hplain : u < 0xd800 ∨ 0xdfff < u
    · rw [if_pos hplain]
      exact ⟨_, rfl, rfl⟩
    · have hlow : ¬u ≤ 0xdbff := by omega
      rw [if_neg hplain, if_neg hlow]
      exact ⟨_, rfl, rfl⟩

/-- **The loop takes all units and no others.** -/
theorem sum_surrogateTurns :
    ∀ us, (((surrogateTurns us).map Turn.pair).map Prod.snd).sum = us.length
  | [] => rfl
  | [u] => by
    rw [surrogateTurns]
    split_ifs <;> rfl
  | u :: u' :: rest => by
    have hrest := sum_surrogateTurns rest
    have hnext := sum_surrogateTurns (u' :: rest)
    obtain ⟨turn, hsize, hturns⟩ := surrogateTurns_cons u u' rest
    rw [hturns, List.map_cons, List.map_cons, List.sum_cons, Turn.pair, hsize]
    rw [List.length_cons] at hnext ⊢
    split_ifs
    · rw [hrest, List.length_cons]
      omega
    · rw [hnext, List.length_cons]
      omega

/-- What is read at the place where a character begins. -/
theorem producedAt_surrogateTurns {c : ℕ} {turn : Turn} {rest e : List ℕ}
    (hfirst : surrogateTurns rest = turn :: surrogateTurns e) (hpos : 0 < turn.size) :
    ∀ b, ProducedAt ((surrogateTurns (b ++ rest)).map Turn.pair) b.length c ↔
      Text.swallows isHigh b = false ∧ turn.char = c
  | [] => by
    rw [List.nil_append, hfirst, List.map_cons, producedAt_cons]
    have hnot : ¬turn.pair.2 ≤ ([] : List ℕ).length := Nat.not_le.2 hpos
    rw [or_iff_left fun h => hnot h.1]
    exact and_congr_left fun _ => iff_of_true rfl rfl
  | [u] => by
    cases rest with
    | nil => cases hfirst
    | cons u' rest =>
      have hnone := producedAt_surrogateTurns (c := c) hfirst hpos []
      obtain ⟨turn', hsize, hturns⟩ := surrogateTurns_cons u u' rest
      have hpair : turn'.pair.2 = if isHigh u then 2 else 1 := hsize
      rw [List.singleton_append, hturns, List.map_cons, producedAt_cons, List.length_singleton,
        or_iff_right fun h => one_ne_zero h.1, hpair]
      cases hhigh : isHigh u with
      | true =>
        -- the unit behind it is gone
        have hswallows : Text.swallows isHigh [u] = true := hhigh
        rw [hswallows, if_pos rfl]
        exact iff_of_false (fun h => absurd h.1 (by decide)) fun h => Bool.noConfusion h.1
      | false =>
        have hswallows : Text.swallows isHigh [u] = false := hhigh
        rw [hswallows, if_neg Bool.false_ne_true, if_neg Bool.false_ne_true, and_iff_right le_rfl]
        exact hnone
  | u :: u' :: b => by
    have hnone := producedAt_surrogateTurns (c := c) hfirst hpos b
    have hnext := producedAt_surrogateTurns (c := c) hfirst hpos (u' :: b)
    obtain ⟨turn', hsize, hturns⟩ := surrogateTurns_cons u u' (b ++ rest)
    have hpair : turn'.pair.2 = if isHigh u then 2 else 1 := hsize
    have hlen : (u :: u' :: b).length = b.length + 2 := rfl
    rw [List.cons_append, List.cons_append, hturns, List.map_cons, producedAt_cons, hlen,
      or_iff_right fun h => absurd h.1 (Nat.succ_ne_zero _), hpair]
    cases hhigh : isHigh u with
    | true =>
      rw [Text.swallows_cons_cons_of_true hhigh, if_pos rfl, if_pos rfl,
        and_iff_right (Nat.le_add_left _ _), Nat.add_sub_cancel]
      exact hnone
    | false =>
      rw [Text.swallows_cons_of_false hhigh, if_neg Bool.false_ne_true, if_neg Bool.false_ne_true,
        and_iff_right (Nat.le_add_left _ _)]
      exact hnext

/-! ### Characters in their place -/

/-- In UTF-8 a character is produced in its place if and only if no byte before it announces more
bytes than there are, and it is not U+FFFE, for which the code has no place.  In UTF-16 it is if and
only if an even number of units right before it are first ones of pairs.  Both loops take all that
there is, and nothing past its end. -/
theorem producedAt_iff (src : Bytes) (host : ByteOrder) (us : List UInt16) :
    (∃ turns, decodeUTF8 src = some turns ∧ (turns.map Prod.snd).sum = src.length ∧
      ∀ b c e, src = b ++ String.utf8EncodeChar c ++ e →
        (ProducedAt turns b.length c.toNat ↔
          (∀ p < b.length, overreaches (src.drop p) = false) ∧ c.toNat ≠ 0xfffe)) ∧
    ∃ turns,
      markedTurns host 2 (utf16Turns host) ((us.map UInt16.toNat).flatMap (host.toBytes 2))
          us.length = some turns ∧
        ((turns.map Turn.pair).map Prod.snd).sum = (textUnits (us.map UInt16.toNat)).length ∧
        ∀ b c e, textUnits (us.map UInt16.toNat) = b ++ encodeUTF16 c ++ e →
          (ProducedAt (turns.map Turn.pair) b.length c.toNat ↔ Even (trailingHighs b)) := by
  constructor
  · obtain ⟨turns, hturns, hsum⟩ := decodeUTF8_spec src
    refine ⟨turns, hturns, hsum, fun b c e hsplit => ?_⟩
    rw [List.append_assoc] at hsplit
    rw [hsplit] at hturns ⊢
    have hpos : 0 < (String.utf8EncodeChar c).length := by
      rw [String.length_utf8EncodeChar]
      exact c.utf8Size_pos
    rw [producedAt_fromUTF8Turns hturns (fromUTF8_char c e) hpos (head_char c e)]
    refine and_congr_right fun _ => ?_
    split_ifs with hmark
    · rw [hmark]
      exact iff_of_false (by decide) fun h => h rfl
    · exact iff_of_true rfl hmark
  · have hus : ∀ u ∈ us.map UInt16.toNat, u < 65536 := by
      intro u hu
      obtain ⟨v, -, rfl⟩ := List.mem_map.1 hu
      exact v.toNat_lt
    have hlen : us.length = (us.map UInt16.toNat).length := (List.length_map _).symm
    have hturns := @markedTurns_utf16 host _ _ hus hlen.le
    rw [List.take_of_length_le hlen.ge] at hturns
    refine ⟨_, hturns, sum_surrogateTurns _, fun b c e hsplit => ?_⟩
    have hpos : 0 < (encodeUTF16 c).length := List.length_pos_iff.2 (encodeUTF16_ne_nil c)
    rw [hsplit, List.append_assoc,
      producedAt_surrogateTurns (surrogateTurns_encodeUTF16 c e) hpos b,
      Text.swallows_eq_false_iff]
    exact and_iff_left rfl

/-- A second half that stands alone does not swallow the letter behind it. -/
theorem producedAt_behind_low : ∃ turns,
    markedTurns .little 2 (utf16Turns .little) [0x00, 0xdc, 0x41, 0x00] 2 = some turns ∧
      ProducedAt (turns.map Turn.pair) 1 'A'.toNat := by
  obtain ⟨-, turns, hturns, -, hproduced⟩ := producedAt_iff [] .little [0xdc00, 0x0041]
  exact ⟨turns, hturns, (hproduced [0xdc00] 'A' [] (by decide)).2 ⟨0, rfl⟩⟩

/-- A byte that announces more than there is takes the letter behind it, and so does a first half
that stands alone. -/
theorem not_producedAt :
    (¬∀ b c e turns, decodeUTF8 (b ++ String.utf8EncodeChar c ++ e) = some turns →
      ProducedAt turns b.length c.toNat) ∧
    ¬∀ (host : ByteOrder) (us : List UInt16) turns b c e,
      markedTurns host 2 (utf16Turns host) ((us.map UInt16.toNat).flatMap (host.toBytes 2))
          us.length = some turns →
        textUnits (us.map UInt16.toNat) = b ++ encodeUTF16 c ++ e →
          ProducedAt (turns.map Turn.pair) b.length c.toNat := by
  have hnot : ∀ c, ¬ProducedAt [(c, 2)] 1 'A'.toNat := by
    intro c hproduced
    rcases producedAt_cons.1 hproduced with ⟨h, -⟩ | ⟨h, -⟩
    · exact one_ne_zero h
    · exact Nat.not_succ_le_self 1 h
  constructor
  · intro h
    exact hnot _ (h [0xe2] 'A' [] [(invalid, 2)] (by decide +kernel))
  · intro h
    exact hnot _ (h .little [0xd800, 0x0041] [malformed 2] [0xd800] 'A' [] (by decide +kernel)
      (by decide))

end Unicode

end InputLeap
