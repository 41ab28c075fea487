import InputLeap.Unicode.Basic
import Mathlib.Tactic.IntervalCases

/-!
# One character in UTF-8

A turn of the loop over UTF-8 takes at least one byte and stays in the data.  It takes no byte that
begins a character but its first, unless that one announces more bytes than there are.

## Main definitions

* `Unicode.overreaches` : the first byte announces more bytes than there are.

## Main results

* `Unicode.fromUTF8_spec` : what a turn takes.
* `Unicode.fromUTF8_char`, `Unicode.toUTF8_char` : a character is read from its encoding, and
  written as it.
-/

namespace InputLeap

namespace Unicode

variable {data : Bytes} {b : UInt8} {c i size : ℕ}

theorem isContinuation_iff : isContinuation b = true ↔ 0x80 ≤ b.toNat ∧ b.toNat < 0xc0 := by
  have hall : ∀ n < 256, (n &&& 0xc0 == 0x80) = true ↔ 0x80 ≤ n ∧ n < 0xc0 := by decide +kernel
  exact hall b.toNat b.toNat_lt

/-- No character begins with a continuation. -/
theorem sequenceLength_of_isContinuation (h : isContinuation b = true) :
    sequenceLength b.toNat = none := by
  obtain ⟨hlow, hhigh⟩ := isContinuation_iff.1 h
  rw [sequenceLength, if_neg (by omega), if_pos hhigh]

theorem sequenceLength_pos {lead : ℕ} (h : sequenceLength lead = some size) :
    1 ≤ size ∧ size ≤ 6 := by
  unfold sequenceLength at h
  split_ifs at h <;> (obtain rfl := Option.some.inj h) <;> decide

/-- The first byte announces more bytes than there are. -/
def overreaches : Bytes → Bool
  | [] => false
  | lead :: rest =>
    match sequenceLength lead.toNat with
    | none => false
    | some size => rest.length + 1 < size

/-- The byte at the place is a continuation. -/
def ContinuesAt (data : Bytes) (i : ℕ) : Prop := ∃ b, data[i]? = some b ∧ isContinuation b = true

theorem not_overreaches_of_continuesAt (h : ContinuesAt data i) :
    overreaches (data.drop i) = false := by
  obtain ⟨b, hb, hcont⟩ := h
  obtain ⟨hi, rfl⟩ := List.getElem?_eq_some_iff.1 hb
  rw [List.drop_eq_getElem_cons hi, overreaches, sequenceLength_of_isContinuation hcont]

/-! ### What a turn takes -/

/-- The bytes are cut at the first one that is no continuation. -/
theorem checkBytes_spec (hi : i < data.length) :
    ∃ cut, checkBytes data i size = some cut ∧
      (cut = size ∧ (∀ j, 0 < j → j ≤ i → ContinuesAt data j) ∨
        cut ≤ i ∧ 0 < cut ∧ (∀ j, 0 < j → j < cut → ContinuesAt data j) ∧
          ¬ContinuesAt data cut) := by
  induction i generalizing size with
  | zero => exact ⟨size, rfl, .inl ⟨rfl, fun j hpos hle => absurd hpos (by omega)⟩⟩
  | succ i ih =>
    have hget : data[i + 1]? = some data[i + 1] := List.getElem?_eq_getElem hi
    rw [checkBytes, hget, Option.bind_eq_bind, Option.bind_some]
    cases hcont : isContinuation data[i + 1] with
    | true =>
      rw [if_pos rfl]
      obtain ⟨cut, hcut, ⟨rfl, hall⟩ | ⟨hle, hrest⟩⟩ := @ih size (by omega)
      · refine ⟨cut, hcut, .inl ⟨rfl, fun j hpos hj => ?_⟩⟩
        rcases Nat.lt_or_eq_of_le hj with hlt | rfl
        · exact hall j hpos (by omega)
        · exact ⟨_, hget, hcont⟩
      · exact ⟨cut, hcut, .inr ⟨by omega, hrest⟩⟩
    | false =>
      rw [if_neg Bool.false_ne_true]
      obtain ⟨cut, hcut, ⟨rfl, hall⟩ | ⟨hle, hrest⟩⟩ := @ih (i + 1) (by omega)
      · refine ⟨i + 1, hcut, .inr ⟨le_rfl, by omega, fun j hpos hj => hall j hpos (by omega), ?_⟩⟩
        rintro ⟨b, hb, hbcont⟩
        rw [hget, Option.some.injEq] at hb
        rw [hb, hbcont] at hcont
        cases hcont
      · exact ⟨cut, hcut, .inr ⟨by omega, hrest⟩⟩

/-- All bytes are continuations, and nothing is cut. -/
theorem checkBytes_eq_of_continuesAt (hi : i < data.length)
    (hall : ∀ j, 0 < j → j ≤ i → ContinuesAt data j) : checkBytes data i size = some size := by
  obtain ⟨cut, hcut, ⟨rfl, -⟩ | ⟨hle, hpos, -, hnot⟩⟩ := @checkBytes_spec _ _ size hi
  · exact hcut
  · exact absurd (hall cut hpos hle) hnot

theorem exists_extract (hpos : 1 ≤ size) (hsize : size ≤ 6) (hlen : size ≤ data.length) :
    ∃ c, extract data size = some c := by
  interval_cases size
  · match data, hlen with
    | _ :: _, _ => exact ⟨_, rfl⟩
  · match data, hlen with
    | _ :: _ :: _, _ => exact ⟨_, rfl⟩
  · match data, hlen with
    | _ :: _ :: _ :: _, _ => exact ⟨_, rfl⟩
  · match data, hlen with
    | _ :: _ :: _ :: _ :: _, _ => exact ⟨_, rfl⟩
  · match data, hlen with
    | _ :: _ :: _ :: _ :: _ :: _, _ => exact ⟨_, rfl⟩
  · match data, hlen with
    | _ :: _ :: _ :: _ :: _ :: _ :: _, _ => exact ⟨_, rfl⟩

/-- **What a turn takes.** -/
theorem fromUTF8_spec (hdata : data ≠ []) :
    ∃ c size, fromUTF8 data = some (c, size) ∧ 0 < size ∧ size ≤ data.length ∧
      (overreaches data = true → size = data.length) ∧
      (overreaches data = false → ∀ j, 0 < j → j < size → ContinuesAt data j) := by
  cases data with
  | nil => exact absurd rfl hdata
  | cons lead rest =>
    rw [fromUTF8, overreaches]
    cases hsize : sequenceLength lead.toNat with
    | none =>
      refine ⟨invalid, 1, rfl, one_pos, Nat.succ_pos _, fun h => ?_, fun _ j hpos hj => ?_⟩
      · cases h
      · exact absurd hpos (by omega)
    | some size =>
      obtain ⟨hpos, hle⟩ := sequenceLength_pos hsize
      simp only [List.length_cons, decide_eq_true_eq, decide_eq_false_iff_not]
      by_cases hover : rest.length + 1 < size
      · rw [if_pos hover]
        exact ⟨invalid, rest.length + 1, rfl, Nat.succ_pos _, le_rfl, fun _ => rfl,
          fun h => absurd hover h⟩
      · rw [if_neg hover]
        have hlen : size ≤ (lead :: rest).length := Nat.not_lt.1 hover
        obtain ⟨c, hc⟩ := exists_extract hpos hle hlen
        obtain ⟨cut, hcut, hcases⟩ := @checkBytes_spec (lead :: rest) (size - 1) size
          (by omega)
        rw [hc, hcut]
        have htakes : 0 < cut ∧ cut ≤ size ∧
            ∀ j, 0 < j → j < cut → ContinuesAt (lead :: rest) j := by
          rcases hcases with ⟨rfl, hall⟩ | ⟨hle', hpos', hall, -⟩
          · exact ⟨hpos, le_rfl, fun j hj hjc => hall j hj (by omega)⟩
          · exact ⟨hpos', by omega, hall⟩
        exact ⟨_, cut, rfl, htakes.1, htakes.2.1.trans hlen, fun h => absurd h hover,
          fun _ => htakes.2.2⟩

/-! ### The encoding of a character -/

theorem and_mask (c k : ℕ) : c &&& (2 ^ k - 1) = c % 2 ^ k := Nat.and_two_pow_sub_one_eq_mod c k

/-- Six more bits. -/
theorem shift_or_shift {x y : ℕ} (s : ℕ) (hy : y < 64) :
    x <<< (s + 6) ||| y <<< s = (x * 64 + y) <<< s := by
  have hx : x * 64 = x <<< 6 := by rw [Nat.shiftLeft_eq]
  rw [Nat.add_comm s 6, Nat.shiftLeft_add, ← Nat.shiftLeft_or_distrib, hx,
    Nat.shiftLeft_add_eq_or_of_lt hy]

theorem isContinuation_ofNat {x : ℕ} (hx : x < 64) :
    isContinuation (UInt8.ofNat (x + 0x80)) = true := by
  rw [isContinuation_iff, UInt8.toNat_ofNat']
  omega

/-- A turn on an encoding that is complete. -/
theorem fromUTF8_complete {lead : UInt8} {rest : Bytes}
    (hsize : sequenceLength lead.toNat = some size) (hlen : size ≤ (lead :: rest).length)
    (hc : extract (lead :: rest) size = some c)
    (hall : ∀ j, 0 < j → j < size → ContinuesAt (lead :: rest) j) (hmin : minChar size ≤ c)
    (hscalar : c < 0xd800 ∨ 0xdfff < c) :
    fromUTF8 (lead :: rest) = some (if c = 0xfffe then invalid else c, size) := by
  have hpos : 1 ≤ size := (sequenceLength_pos hsize).1
  have hcheck : checkBytes (lead :: rest) (size - 1) size = some size :=
    checkBytes_eq_of_continuesAt (by omega) fun j hj hle => hall j hj (by omega)
  have hmark : (if 0xfffe ≤ c ∧ c ≤ 0xffff then invalid else c) =
      if c = 0xfffe then invalid else c := by
    unfold invalid
    split_ifs <;> omega
  rw [fromUTF8, hsize]
  dsimp only
  rw [if_neg (Nat.not_lt.2 hlen), hc, hcheck, ← hmark]
  have hsurrogate : ¬(0xd800 ≤ c ∧ c ≤ 0xdfff) := by omega
  simp [Nat.not_lt.2 hmin, hsurrogate]

theorem char_cases (c : Char) : c.toNat < 0xd800 ∨ 0xdfff < c.toNat ∧ c.toNat < 0x110000 := c.valid

theorem bitsAt_eq {x : ℕ} (shift : ℕ) (hx : x < 64)
    (hb : data[i]? = some (UInt8.ofNat (x + 0x80))) : bitsAt data i shift = some (x <<< shift) := by
  have hbits : (UInt8.ofNat (x + 0x80)).toNat &&& 0x3f = x := by
    rw [UInt8.toNat_ofNat']
    change _ &&& (2 ^ 6 - 1) = _
    rw [and_mask]
    omega
  rw [bitsAt, hb, Option.map_some, hbits]

theorem leadBits_eq {x base k : ℕ} (shift : ℕ) (hx : x < 2 ^ k) (hbase : base % 2 ^ k = 0)
    (hbyte : x + base < 256) (rest : Bytes) :
    leadBits (UInt8.ofNat (x + base) :: rest) (2 ^ k - 1) shift = some (x <<< shift) := by
  have hbits : (UInt8.ofNat (x + base)).toNat &&& (2 ^ k - 1) = x := by
    rw [UInt8.toNat_ofNat', and_mask, Nat.mod_eq_of_lt hbyte, Nat.add_mod, hbase, Nat.add_zero,
      Nat.mod_mod, Nat.mod_eq_of_lt hx]
  rw [leadBits, List.getElem?_cons_zero, Option.map_some, hbits]

theorem extract_two {x y : ℕ} (hx : x < 32) (hy : y < 64) (rest : Bytes) :
    extract (UInt8.ofNat (x + 0xc0) :: UInt8.ofNat (y + 0x80) :: rest) 2 = some (x * 64 + y) := by
  generalize hdata : UInt8.ofNat (x + 0xc0) :: UInt8.ofNat (y + 0x80) :: rest = data
  have hlead : leadBits data 0x1f 6 = some (x <<< 6) :=
    hdata ▸ leadBits_eq (k := 5) 6 hx (by decide) (by omega) _
  have hy' : bitsAt data 1 0 = some (y <<< 0) := bitsAt_eq 0 hy (hdata ▸ rfl)
  rw [extract, hlead, hy']
  exact congrArg some (shift_or_shift 0 hy)

theorem extract_three {x y z : ℕ} (hx : x < 16) (hy : y < 64) (hz : z < 64) (rest : Bytes) :
    extract (UInt8.ofNat (x + 0xe0) :: UInt8.ofNat (y + 0x80) :: UInt8.ofNat (z + 0x80) :: rest) 3 =
      some ((x * 64 + y) * 64 + z) := by
  generalize hdata : UInt8.ofNat (x + 0xe0) :: UInt8.ofNat (y + 0x80) ::
    UInt8.ofNat (z + 0x80) :: rest = data
  have hlead : leadBits data 0x0f 12 = some (x <<< 12) :=
    hdata ▸ leadBits_eq (k := 4) 12 hx (by decide) (by omega) _
  have hy' : bitsAt data 1 6 = some (y <<< 6) := bitsAt_eq 6 hy (hdata ▸ rfl)
  have hz' : bitsAt data 2 0 = some (z <<< 0) := bitsAt_eq 0 hz (hdata ▸ rfl)
  rw [extract, hlead, hy', hz']
  refine congrArg some ?_
  rw [shift_or_shift 6 hy]
  exact shift_or_shift 0 hz

theorem extract_four {x y z w : ℕ} (hx : x < 8) (hy : y < 64) (hz : z < 64) (hw : w < 64)
    (rest : Bytes) :
    extract (UInt8.ofNat (x + 0xf0) :: UInt8.ofNat (y + 0x80) :: UInt8.ofNat (z + 0x80) ::
      UInt8.ofNat (w + 0x80) :: rest) 4 = some (((x * 64 + y) * 64 + z) * 64 + w) := by
  generalize hdata : UInt8.ofNat (x + 0xf0) :: UInt8.ofNat (y + 0x80) ::
    UInt8.ofNat (z + 0x80) :: UInt8.ofNat (w + 0x80) :: rest = data
  have hlead : leadBits data 0x07 18 = some (x <<< 18) :=
    hdata ▸ leadBits_eq (k := 3) 18 hx (by decide) (by omega) _
  have hy' : bitsAt data 1 12 = some (y <<< 12) := bitsAt_eq 12 hy (hdata ▸ rfl)
  have hz' : bitsAt data 2 6 = some (z <<< 6) := bitsAt_eq 6 hz (hdata ▸ rfl)
  have hw' : bitsAt data 3 0 = some (w <<< 0) := bitsAt_eq 0 hw (hdata ▸ rfl)
  rw [extract, hlead, hy', hz', hw']
  refine congrArg some ?_
  rw [shift_or_shift 12 hy, shift_or_shift 6 hz]
  exact shift_or_shift 0 hw

theorem continuesAt_of {x : ℕ} (hx : x < 64) (hb : data[i]? = some (UInt8.ofNat (x + 0x80))) :
    ContinuesAt data i := ⟨_, hb, isContinuation_ofNat hx⟩

/-- The encodings, by their length. -/
theorem utf8EncodeChar_cases (c : Char) :
    (c.toNat < 0x80 ∧ String.utf8EncodeChar c = [UInt8.ofNat c.toNat]) ∨
    (∃ x y, x < 32 ∧ y < 64 ∧ c.toNat = x * 64 + y ∧ 0x80 ≤ c.toNat ∧
      String.utf8EncodeChar c = [UInt8.ofNat (x + 0xc0), UInt8.ofNat (y + 0x80)]) ∨
    (∃ x y z, x < 16 ∧ y < 64 ∧ z < 64 ∧ c.toNat = (x * 64 + y) * 64 + z ∧ 0x800 ≤ c.toNat ∧
      String.utf8EncodeChar c =
        [UInt8.ofNat (x + 0xe0), UInt8.ofNat (y + 0x80), UInt8.ofNat (z + 0x80)]) ∨
    ∃ x y z w, x < 8 ∧ y < 64 ∧ z < 64 ∧ w < 64 ∧
      c.toNat = ((x * 64 + y) * 64 + z) * 64 + w ∧ 0x10000 ≤ c.toNat ∧
      String.utf8EncodeChar c = [UInt8.ofNat (x + 0xf0), UInt8.ofNat (y + 0x80),
        UInt8.ofNat (z + 0x80), UInt8.ofNat (w + 0x80)] := by
  have hscalar := char_cases c
  have hv : c.val.toNat = c.toNat := rfl
  simp only [String.utf8EncodeChar, hv]
  generalize c.toNat = v at hscalar
  by_cases h₁ : v ≤ 0x7f
  · rw [if_pos h₁]
    exact .inl ⟨by omega, rfl⟩
  by_cases h₂ : v ≤ 0x7ff
  · rw [if_neg h₁, if_pos h₂]
    exact .inr (.inl ⟨_, _, by omega, by omega, by omega, by omega, rfl⟩)
  by_cases h₃ : v ≤ 0xffff
  · rw [if_neg h₁, if_neg h₂, if_pos h₃]
    exact .inr (.inr (.inl ⟨_, _, _, by omega, by omega, by omega, by omega, by omega, rfl⟩))
  · rw [if_neg h₁, if_neg h₂, if_neg h₃]
    exact .inr (.inr (.inr ⟨_, _, _, _, by omega, by omega, by omega, by omega, by omega,
      by omega, rfl⟩))

theorem toNat_ofNat {x : ℕ} (hx : x < 256) : (UInt8.ofNat x).toNat = x := by
  rw [UInt8.toNat_ofNat']
  exact Nat.mod_eq_of_lt hx

/-- A byte of ASCII stands only for itself. -/
theorem mem_utf8EncodeChar_iff {c : Char} (hb : b.toNat < 0x80) :
    b ∈ String.utf8EncodeChar c ↔ c.toNat = b.toNat := by
  have hlarge : ∀ {x}, 0x80 ≤ x → x < 256 → b ≠ UInt8.ofNat x := by
    rintro x hmin hx rfl
    rw [toNat_ofNat hx] at hb
    exact absurd hb (Nat.not_lt.2 hmin)
  rcases utf8EncodeChar_cases c with ⟨hc, henc⟩ | ⟨x, y, hx, hy, -, hmin, henc⟩ |
    ⟨x, y, z, hx, hy, hz, -, hmin, henc⟩ | ⟨x, y, z, w, hx, hy, hz, hw, -, hmin, henc⟩
  · rw [henc, List.mem_singleton, ← UInt8.toNat_inj, toNat_ofNat (by omega)]
    exact eq_comm
  · have hmem : b ∉ String.utf8EncodeChar c := by
      rw [henc]
      simp only [List.mem_cons, List.not_mem_nil, or_false, not_or]
      exact ⟨hlarge (by omega) (by omega), hlarge (by omega) (by omega)⟩
    exact iff_of_false hmem (by omega)
  · have hmem : b ∉ String.utf8EncodeChar c := by
      rw [henc]
      simp only [List.mem_cons, List.not_mem_nil, or_false, not_or]
      exact ⟨hlarge (by omega) (by omega), hlarge (by omega) (by omega),
        hlarge (by omega) (by omega)⟩
    exact iff_of_false hmem (by omega)
  · have hmem : b ∉ String.utf8EncodeChar c := by
      rw [henc]
      simp only [List.mem_cons, List.not_mem_nil, or_false, not_or]
      exact ⟨hlarge (by omega) (by omega), hlarge (by omega) (by omega),
        hlarge (by omega) (by omega), hlarge (by omega) (by omega)⟩
    exact iff_of_false hmem (by omega)

/-- **A character is read from its encoding**, but for U+FFFE. -/
theorem fromUTF8_char (c : Char) (rest : Bytes) :
    fromUTF8 (String.utf8EncodeChar c ++ rest) =
      some (if c.toNat = 0xfffe then invalid else c.toNat, (String.utf8EncodeChar c).length) := by
  have hscalar : c.toNat < 0xd800 ∨ 0xdfff < c.toNat := (char_cases c).imp_right And.left
  rcases utf8EncodeChar_cases c with ⟨hc, henc⟩ | ⟨x, y, hx, hy, hc, hmin, henc⟩ |
    ⟨x, y, z, hx, hy, hz, hc, hmin, henc⟩ | ⟨x, y, z, w, hx, hy, hz, hw, hc, hmin, henc⟩
  all_goals rw [henc]
  · refine fromUTF8_complete ?_ (Nat.succ_pos _) ?_ (fun j hj hlt => absurd hj ?_) (Nat.zero_le _)
      hscalar
    · rw [toNat_ofNat (by omega), sequenceLength, if_pos hc]
      rfl
    · exact congrArg some (toNat_ofNat (by omega))
    · exact Nat.not_lt.2 (Nat.lt_succ_iff.1 hlt)
  · refine fromUTF8_complete ?_ ?_ (hc ▸ extract_two hx hy rest) (fun j hj hlt => ?_) hmin hscalar
    · rw [toNat_ofNat (by omega), sequenceLength, if_neg (by omega), if_neg (by omega),
        if_pos (by omega)]
      rfl
    · exact Nat.le_add_left _ _
    · obtain rfl : j = 1 := by simp at hlt; omega
      exact continuesAt_of hy rfl
  · refine fromUTF8_complete ?_ ?_ (hc ▸ extract_three hx hy hz rest) (fun j hj hlt => ?_) hmin
      hscalar
    · rw [toNat_ofNat (by omega), sequenceLength, if_neg (by omega), if_neg (by omega),
        if_neg (by omega), if_pos (by omega)]
      rfl
    · exact Nat.le_add_left _ _
    · obtain rfl | rfl : j = 1 ∨ j = 2 := by simp at hlt; omega
      · exact continuesAt_of hy rfl
      · exact continuesAt_of hz rfl
  · refine fromUTF8_complete ?_ ?_ (hc ▸ extract_four hx hy hz hw rest) (fun j hj hlt => ?_) hmin
      hscalar
    · rw [toNat_ofNat (by omega), sequenceLength, if_neg (by omega), if_neg (by omega),
        if_neg (by omega), if_neg (by omega), if_pos (by omega)]
      rfl
    · exact Nat.le_add_left _ _
    · obtain rfl | rfl | rfl : j = 1 ∨ j = 2 ∨ j = 3 := by simp at hlt; omega
      · exact continuesAt_of hy rfl
      · exact continuesAt_of hz rfl
      · exact continuesAt_of hw rfl

/-- No encoding begins with a continuation. -/
theorem head_char (c : Char) (rest : Bytes) :
    ¬ContinuesAt (String.utf8EncodeChar c ++ rest) 0 := by
  rintro ⟨b, hb, hcont⟩
  rw [isContinuation_iff] at hcont
  rcases utf8EncodeChar_cases c with ⟨hc, henc⟩ | ⟨x, y, hx, -, -, -, henc⟩ |
    ⟨x, y, z, hx, -, -, -, -, henc⟩ | ⟨x, y, z, w, hx, -, -, -, -, -, henc⟩
  all_goals
    rw [henc, List.cons_append, List.getElem?_cons_zero, Option.some.injEq] at hb
    rw [← hb, toNat_ofNat (by omega)] at hcont
    omega

/-- **A character is written as its encoding.** -/
theorem toUTF8_char (c : Char) : toUTF8 c.toNat = (String.utf8EncodeChar c, false) := by
  have hscalar := char_cases c
  have herror : ((0xd800 ≤ c.toNat && c.toNat ≤ 0xdfff) || decide (0x80000000 ≤ c.toNat)) =
      false := by
    simp only [Bool.or_eq_false_iff, Bool.and_eq_false_iff, decide_eq_false_iff_not]
    omega
  have hsix : ∀ x, x &&& 0x3f = x % 64 := fun x => and_mask x 6
  have hfive : ∀ x, x &&& 0x1f = x % 32 := fun x => and_mask x 5
  have hfour : ∀ x, x &&& 0x0f = x % 16 := fun x => and_mask x 4
  have hthree : ∀ x, x &&& 0x07 = x % 8 := fun x => and_mask x 3
  simp only [toUTF8, herror, continuation, hsix, hfive, hfour, hthree, Nat.shiftRight_eq_div_pow,
    Bool.false_eq_true, if_false]
  rcases utf8EncodeChar_cases c with ⟨hc, henc⟩ | ⟨x, y, hx, hy, hc, hmin, henc⟩ |
    ⟨x, y, z, hx, hy, hz, hc, hmin, henc⟩ | ⟨x, y, z, w, hx, hy, hz, hw, hc, hmin, henc⟩
  all_goals rw [henc]
  · rw [if_pos hc]
  · rw [if_neg (by omega), if_pos (by omega)]
    have hx' : c.toNat / 2 ^ 6 % 32 = x := by omega
    have hy' : c.toNat % 64 = y := by omega
    rw [hx', hy']
  · rw [if_neg (by omega), if_neg (by omega), if_pos (by omega)]
    have hx' : c.toNat / 2 ^ 12 % 16 = x := by omega
    have hy' : c.toNat / 2 ^ 6 % 64 = y := by omega
    have hz' : c.toNat % 64 = z := by omega
    rw [hx', hy', hz']
  · rw [if_neg (by omega), if_neg (by omega), if_neg (by omega), if_pos (by omega)]
    have hx' : c.toNat / 2 ^ 18 % 8 = x := by omega
    have hy' : c.toNat / 2 ^ 12 % 64 = y := by omega
    have hz' : c.toNat / 2 ^ 6 % 64 = z := by omega
    have hw' : c.toNat % 64 = w := by omega
    rw [hx', hy', hz', hw']

end Unicode

end InputLeap
