import InputLeap.Unicode.Utf8

/-!
# The units of a text

The loops over units stay in the data, and what they do depends on the units alone.

## Main definitions

* `Unicode.units` : the units that are stored in the data.
* `Unicode.surrogateTurns` : the loop for UTF-16 over the units.
* `Unicode.encodeUTF16` : a character in UTF-16.
* `Unicode.textUnits` : the units behind a byte-order mark, in the order of the machine.

## Main results

* `Unicode.unitTurns_eq`, `Unicode.utf16Turns_eq` : the loops read nothing past the end.
* `Unicode.units_flatMap`, `Unicode.units_flatMap_swapped` : units that were stored are read back.
* `Unicode.surrogateTurns_encodeUTF16` : a character is read from its units.
-/

namespace InputLeap

namespace Unicode

variable {host : ByteOrder} {width : ℕ} {byteSwapped : Bool} {data : Bytes} {n : ℕ}

/-- The first unit of the data. -/
def unit (host : ByteOrder) (width : ℕ) (byteSwapped : Bool) (data : Bytes) : ℕ :=
  host.ofBytes (if byteSwapped then (data.take width).reverse else data.take width)

/-- The first `n` units of the data. -/
def units (host : ByteOrder) (width : ℕ) (byteSwapped : Bool) : Bytes → ℕ → List ℕ
  | _, 0 => []
  | data, n + 1 =>
    unit host width byteSwapped data :: units host width byteSwapped (data.drop width) n

/-- The unit with its two bytes in the other order. -/
def swap16 (c : ℕ) : ℕ := c % 256 * 256 + c / 256

/-- The loop for UTF-16 over the units. -/
def surrogateTurns : List ℕ → List Turn
  | [] => []
  | [c] => if c < 0x0000d800 ∨ 0x0000dfff < c then [{ char := c }] else [malformed 1]
  | c :: c2 :: rest =>
    if c < 0x0000d800 ∨ 0x0000dfff < c then { char := c } :: surrogateTurns (c2 :: rest)
    else if c ≤ 0x0000dbff then
      (if c2 < 0x0000dc00 ∨ 0x0000dfff < c2 then malformed 2
        else
          { char := ((c - 0x0000d800) <<< 10 ||| (c2 - 0x0000dc00)) + 0x00010000, size := 2 }) ::
        surrogateTurns rest
    else malformed 1 :: surrogateTurns (c2 :: rest)

theorem length_units (data : Bytes) (n : ℕ) :
    (units host width byteSwapped data n).length = n := by
  induction n generalizing data with
  | zero => rfl
  | succ n ih => rw [units, List.length_cons, ih]

/-! ### The loops stay in the data -/

theorem decode_eq (h : width ≤ data.length) :
    decode host width data byteSwapped = some (unit host width byteSwapped data) := by
  rw [decode, if_neg (Nat.not_lt.2 h), unit]

theorem unitTurns_eq {convert : ℕ → Turn} (h : width * n ≤ data.length) :
    unitTurns host width convert byteSwapped data n =
      some ((units host width byteSwapped data n).map convert) := by
  induction n generalizing data with
  | zero => rfl
  | succ n ih =>
    have hdrop : width * n ≤ (data.drop width).length := by
      rw [List.length_drop]
      rw [Nat.mul_succ] at h
      omega
    rw [unitTurns, decode_eq ((Nat.le_mul_of_pos_right width n.succ_pos).trans h), ih hdrop]
    rfl

theorem utf16Turns_eq (h : 2 * n ≤ data.length) :
    utf16Turns host byteSwapped data n =
      some (surrogateTurns (units host 2 byteSwapped data n)) := by
  induction n using Nat.twoStepInduction generalizing data with
  | zero => rfl
  | one =>
    rw [utf16Turns, decode_eq (by omega), units, units, surrogateTurns]
    dsimp only [Option.bind_eq_bind, Option.bind_some]
    split_ifs <;> rfl
  | more n ih ih' =>
    have hdrop : 2 * (n + 1) ≤ (data.drop 2).length := by
      rw [List.length_drop]
      omega
    have hdrop' : 2 * n ≤ (data.drop 4).length := by
      rw [List.length_drop]
      omega
    have hnext : units host 2 byteSwapped (data.drop 2) (n + 1) =
        unit host 2 byteSwapped (data.drop 2) :: units host 2 byteSwapped (data.drop 4) n := by
      rw [units, List.drop_drop]
    have hunits : units host 2 byteSwapped data (n + 2) = unit host 2 byteSwapped data ::
        unit host 2 byteSwapped (data.drop 2) :: units host 2 byteSwapped (data.drop 4) n := by
      rw [← hnext]
      rfl
    rw [utf16Turns, decode_eq (by omega), decode_eq (by omega), ih' hdrop, ih hdrop', hunits,
      hnext, surrogateTurns]
    dsimp only [Option.bind_eq_bind, Option.bind_some]
    split_ifs <;> rfl

/-! ### Units that were stored -/

theorem ofBytes_toBytes {c : ℕ} (hc : c < 256 ^ width) :
    host.ofBytes (host.toBytes width c) = c := by
  cases host with
  | little => rw [ByteOrder.ofBytes, ByteOrder.toBytes, List.reverse_reverse,
      BigEndian.ofBytes_toBytes hc]
  | big => rw [ByteOrder.ofBytes, ByteOrder.toBytes, BigEndian.ofBytes_toBytes hc]

theorem length_toBytes (host : ByteOrder) (width c : ℕ) :
    (host.toBytes width c).length = width := by
  cases host with
  | little => rw [ByteOrder.toBytes, List.length_reverse, BigEndian.length_toBytes]
  | big => rw [ByteOrder.toBytes, BigEndian.length_toBytes]

theorem ofBytes_reverse_toBytes {c : ℕ} (hc : c < 65536) :
    host.ofBytes (host.toBytes 2 c).reverse = swap16 c := by
  have hbytes : BigEndian.toBytes 2 c = [UInt8.ofNat (c / 256), UInt8.ofNat c] := rfl
  cases host
  all_goals
    rw [ByteOrder.ofBytes, ByteOrder.toBytes, hbytes]
    simp only [List.reverse_cons, List.reverse_nil, List.nil_append, List.cons_append,
      BigEndian.ofBytes, List.foldl_cons, List.foldl_nil, UInt8.toNat_ofNat', swap16]
    omega

/-- **Units are read back**, and what is behind them does not matter. -/
theorem units_flatMap {us : List ℕ} (hus : ∀ u ∈ us, u < 65536) (hn : n ≤ us.length)
    (rest : Bytes) :
    units host 2 false (us.flatMap (host.toBytes 2) ++ rest) n = us.take n := by
  induction n generalizing us with
  | zero => rfl
  | succ n ih =>
    cases us with
    | nil => exact absurd hn (by simp)
    | cons u us =>
      obtain ⟨hu, hus⟩ := List.forall_mem_cons.1 hus
      have hlen : (host.toBytes 2 u).length = 2 := length_toBytes host 2 u
      rw [List.flatMap_cons, List.append_assoc, units, unit, List.take_left' hlen,
        List.drop_left' hlen, ih hus (Nat.le_of_succ_le_succ hn)]
      rw [if_neg Bool.false_ne_true, ofBytes_toBytes hu, List.take_succ_cons]

/-- Units that are read back with those behind them. -/
theorem units_flatMap_append {us : List ℕ} (hus : ∀ u ∈ us, u < 65536) (rest : Bytes) (n : ℕ) :
    units host 2 false (us.flatMap (host.toBytes 2) ++ rest) (us.length + n) =
      us ++ units host 2 false rest n := by
  induction us with
  | nil => rw [List.length_nil, Nat.zero_add]; rfl
  | cons u us ih =>
    obtain ⟨hu, hus⟩ := List.forall_mem_cons.1 hus
    have hlen : (host.toBytes 2 u).length = 2 := length_toBytes host 2 u
    rw [List.flatMap_cons, List.append_assoc, List.length_cons, Nat.add_right_comm, units, unit,
      List.take_left' hlen, List.drop_left' hlen, ih hus, if_neg Bool.false_ne_true,
      ofBytes_toBytes hu]
    rfl

/-- Units that are read in the other order. -/
theorem units_flatMap_swapped {us : List ℕ} (hus : ∀ u ∈ us, u < 65536) (hn : n ≤ us.length) :
    units host 2 true (us.flatMap (host.toBytes 2)) n = (us.take n).map swap16 := by
  induction n generalizing us with
  | zero => rfl
  | succ n ih =>
    cases us with
    | nil => exact absurd hn (by simp)
    | cons u us =>
      obtain ⟨hu, hus⟩ := List.forall_mem_cons.1 hus
      have hlen : (host.toBytes 2 u).length = 2 := length_toBytes host 2 u
      rw [List.flatMap_cons, units, unit, List.take_left' hlen, List.drop_left' hlen,
        ih hus (Nat.le_of_succ_le_succ hn)]
      rw [if_pos rfl, ofBytes_reverse_toBytes hu, List.take_succ_cons, List.map_cons]

/-- The units behind a byte-order mark, as the loop reads them. -/
def textUnits : List ℕ → List ℕ
  | [] => []
  | u :: us => if u = 0x0000feff then us else if u = 0x0000fffe then us.map swap16 else u :: us

theorem length_flatMap_toBytes (us : List ℕ) :
    (us.flatMap (host.toBytes 2)).length = 2 * us.length := by
  induction us with
  | nil => rfl
  | cons u us ih =>
    rw [List.flatMap_cons, List.length_append, ih, length_toBytes, List.length_cons]
    omega

theorem take_flatMap_toBytes (us : List ℕ) (n : ℕ) :
    (us.flatMap (host.toBytes 2)).take (2 * n) = (us.take n).flatMap (host.toBytes 2) := by
  induction n generalizing us with
  | zero => rfl
  | succ n ih =>
    cases us with
    | nil => rfl
    | cons u us =>
      have hlen : (host.toBytes 2 u).length = 2 := length_toBytes host 2 u
      rw [List.flatMap_cons, List.take_succ_cons, List.flatMap_cons, List.take_append, hlen,
        List.take_of_length_le (by omega), Nat.mul_succ, Nat.add_sub_cancel, ih]

/-- The turns of the routine for UTF-16 on the first units that are stored. -/
theorem markedTurns_utf16 {us : List ℕ} (hus : ∀ u ∈ us, u < 65536) (hn : n ≤ us.length) :
    markedTurns host 2 (utf16Turns host) (us.flatMap (host.toBytes 2)) n =
      some (surrogateTurns (textUnits (us.take n))) := by
  cases n with
  | zero => rfl
  | succ n =>
    cases us with
    | nil => exact absurd hn (by simp)
    | cons u us =>
      have hn' : n ≤ us.length := Nat.le_of_succ_le_succ hn
      have hall := hus
      obtain ⟨hu, hus⟩ := List.forall_mem_cons.1 hus
      have hlen : (host.toBytes 2 u).length = 2 := length_toBytes host 2 u
      have hdata := @length_flatMap_toBytes host (u :: us)
      have htail := @length_flatMap_toBytes host us
      rw [List.length_cons] at hdata
      have hle : 2 * n ≤ (us.flatMap (host.toBytes 2)).length := by omega
      have hle' : 2 * (n + 1) ≤ ((u :: us).flatMap (host.toBytes 2)).length := by omega
      have hfirst : unit host 2 false ((u :: us).flatMap (host.toBytes 2)) = u := by
        rw [unit, List.flatMap_cons, List.take_left' hlen, if_neg Bool.false_ne_true,
          ofBytes_toBytes hu]
      have hdrop : ((u :: us).flatMap (host.toBytes 2)).drop 2 = us.flatMap (host.toBytes 2) := by
        rw [List.flatMap_cons, List.drop_left' hlen]
      rw [markedTurns, skipMark, decode_eq (by omega), hfirst, hdrop, List.take_succ_cons,
        textUnits]
      dsimp only [Option.bind_eq_bind, Option.bind_some]
      split_ifs
      · have hunits := @units_flatMap host _ _ hus hn' []
        rw [List.append_nil] at hunits
        rw [← hunits]
        exact utf16Turns_eq hle
      · rw [← units_flatMap_swapped hus hn']
        exact utf16Turns_eq hle
      · have hunits := @units_flatMap host _ _ hall hn []
        rw [List.append_nil, List.take_succ_cons] at hunits
        rw [← hunits]
        exact utf16Turns_eq hle'

/-! ### Characters -/

/-- A character in UTF-16. -/
def encodeUTF16 (c : Char) : List ℕ :=
  if c.toNat < 0x10000 then [c.toNat]
  else [(c.toNat - 0x10000) / 0x400 + 0xd800, (c.toNat - 0x10000) % 0x400 + 0xdc00]

/-- A turn that begins with a character. -/
theorem surrogateTurns_encodeUTF16 (c : Char) (e : List ℕ) :
    surrogateTurns (encodeUTF16 c ++ e) =
      { char := c.toNat, size := (encodeUTF16 c).length } :: surrogateTurns e := by
  have hscalar := char_cases c
  by_cases hsmall : c.toNat < 0x10000
  · have henc : encodeUTF16 c = [c.toNat] := if_pos hsmall
    have hplain : c.toNat < 0xd800 ∨ 0xdfff < c.toNat := hscalar.imp_right And.left
    rw [henc]
    cases e with
    | nil =>
      change (if c.toNat < 0xd800 ∨ 0xdfff < c.toNat then _ else _) = _
      rw [if_pos hplain]
      rfl
    | cons u e =>
      rw [List.singleton_append, surrogateTurns, if_pos hplain]
      rfl
  · have henc : encodeUTF16 c =
        [(c.toNat - 0x10000) / 0x400 + 0xd800, (c.toNat - 0x10000) % 0x400 + 0xdc00] :=
      if_neg hsmall
    have hor : ((c.toNat - 0x10000) / 0x400) <<< 10 ||| (c.toNat - 0x10000) % 0x400 =
        c.toNat - 0x10000 := by
      rw [← Nat.shiftLeft_add_eq_or_of_lt (by omega), Nat.shiftLeft_eq]
      omega
    rw [henc, List.cons_append, List.cons_append, List.nil_append, surrogateTurns,
      if_neg (by omega), if_pos (by omega), if_neg (by omega), Nat.add_sub_cancel,
      Nat.add_sub_cancel, hor, Nat.sub_add_cancel (by omega)]
    rfl

theorem encodeUTF16_ne_nil (c : Char) : encodeUTF16 c ≠ [] := by
  unfold encodeUTF16
  split_ifs <;> exact List.cons_ne_nil _ _

end Unicode

end InputLeap
