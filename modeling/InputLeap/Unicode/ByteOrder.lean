import InputLeap.Unicode.Units

/-!
# Text in the other order of bytes

A byte-order mark tells which order the units behind it are stored in.  The routines for 16-bit
units convert text in either order to the same.  Those for 32-bit units look for the mark of 16-bit
units that are swapped, and do not know their own.

## Main definitions

* `Unicode.swapUnits` : the data with the bytes of every unit in the other order.
* `Unicode.Routine` : the routines that convert units to UTF-8.

## Main results

* `Unicode.run_swapUnits_iff` : text behind a mark is converted alike in both orders if and only if
  its units have 16 bits.
-/

namespace InputLeap

namespace Unicode

/-- The data with the bytes of each of the first `n` units in the other order. -/
def swapUnits (width : ℕ) : Bytes → ℕ → Bytes
  | data, 0 => data
  | data, n + 1 => (data.take width).reverse ++ swapUnits width (data.drop width) n

/-- The routines that convert units to UTF-8. -/
inductive Routine
  | ucs2
  | ucs4
  | utf16
  | utf32
  deriving DecidableEq, Repr

namespace Routine

/-- The number of bytes of a unit. -/
def width : Routine → ℕ
  | ucs2 | utf16 => 2
  | ucs4 | utf32 => 4

/-- What the routine yields for the first `n` units of the data. -/
def run : Routine → ByteOrder → Bytes → ℕ → Option (Bytes × Bool)
  | ucs2 => doUCS2ToUTF8
  | ucs4 => doUCS4ToUTF8
  | utf16 => doUTF16ToUTF8
  | utf32 => doUTF32ToUTF8

/-- The turns of the loop over the units. -/
def turns : Routine → List ℕ → List Turn
  | ucs2 | ucs4 => List.map fun c => { char := c }
  | utf16 => surrogateTurns
  | utf32 => List.map fun c =>
    if 0x00110000 ≤ c then { char := replacement, error := true } else { char := c }

end Routine

variable {host : ByteOrder} {width : ℕ} {byteSwapped : Bool} {data : Bytes} {n : ℕ}

/-! ### Units in the other order -/

theorem length_swapUnits (h : width * n ≤ data.length) :
    (swapUnits width data n).length = data.length := by
  induction n generalizing data with
  | zero => rfl
  | succ n ih =>
    rw [Nat.mul_succ] at h
    have hdrop : width * n ≤ (data.drop width).length := by
      rw [List.length_drop]
      omega
    rw [swapUnits, List.length_append, ih hdrop, List.length_reverse, List.length_take,
      List.length_drop]
    omega

/-- Units that are stored in the other order are read back in the other order. -/
theorem units_swapUnits (h : width * n ≤ data.length) :
    units host width byteSwapped (swapUnits width data n) n =
      units host width (!byteSwapped) data n := by
  induction n generalizing data with
  | zero => rfl
  | succ n ih =>
    rw [Nat.mul_succ] at h
    have hdrop : width * n ≤ (data.drop width).length := by
      rw [List.length_drop]
      omega
    have hlen : (data.take width).reverse.length = width := by
      rw [List.length_reverse, List.length_take]
      omega
    rw [swapUnits, units, units, List.drop_left' hlen, ih hdrop, unit, List.take_left' hlen, unit]
    cases byteSwapped with
    | false => rfl
    | true =>
      rw [if_pos rfl, List.reverse_reverse]
      rfl

/-- The first unit and the data behind it, in the other order. -/
theorem unit_swapUnits (h : width * (n + 1) ≤ data.length) :
    unit host width byteSwapped (swapUnits width data (n + 1)) =
        unit host width (!byteSwapped) data ∧
      units host width byteSwapped ((swapUnits width data (n + 1)).drop width) n =
        units host width (!byteSwapped) (data.drop width) n := by
  have hunits := @units_swapUnits host width byteSwapped _ _ h
  rw [units, units] at hunits
  exact List.cons.inj hunits

theorem ofBytes_mark_two {a b : UInt8} (h : BigEndian.ofBytes [a, b] = 0xfeff) :
    BigEndian.ofBytes [b, a] = 0xfffe := by
  have hb := b.toNat_lt
  change (0 * 256 + a.toNat) * 256 + b.toNat = 0xfeff at h
  have hbytes : a.toNat = 0xfe ∧ b.toNat = 0xff := by omega
  change (0 * 256 + b.toNat) * 256 + a.toNat = 0xfffe
  rw [hbytes.1, hbytes.2]

theorem ofBytes_mark_four {a b c d : UInt8} (h : BigEndian.ofBytes [a, b, c, d] = 0xfeff) :
    BigEndian.ofBytes [d, c, b, a] = 0xfffe0000 := by
  have hb := b.toNat_lt
  have hc := c.toNat_lt
  have hd := d.toNat_lt
  change (((0 * 256 + a.toNat) * 256 + b.toNat) * 256 + c.toNat) * 256 + d.toNat = 0xfeff at h
  have hbytes : a.toNat = 0 ∧ b.toNat = 0 ∧ c.toNat = 0xfe ∧ d.toNat = 0xff := by omega
  change (((0 * 256 + d.toNat) * 256 + c.toNat) * 256 + b.toNat) * 256 + a.toNat = 0xfffe0000
  rw [hbytes.1, hbytes.2.1, hbytes.2.2.1, hbytes.2.2.2]

/-- The mark of 16-bit units, in the other order. -/
theorem unit_two_of_mark (h : 2 ≤ data.length) (hmark : unit host 2 byteSwapped data = 0xfeff) :
    unit host 2 (!byteSwapped) data = 0xfffe := by
  match data, h with
  | a :: b :: rest, _ =>
    have hbig : ∀ {x}, unit .big 2 x (a :: b :: rest) = unit .little 2 (!x) (a :: b :: rest) := by
      rintro ⟨⟩ <;> rfl
    have hfalse : unit .little 2 false (a :: b :: rest) = BigEndian.ofBytes [b, a] := rfl
    have htrue : unit .little 2 true (a :: b :: rest) = BigEndian.ofBytes [a, b] := rfl
    cases host <;> cases byteSwapped
    all_goals
      simp only [hbig, Bool.not_true, Bool.not_false, hfalse, htrue] at hmark ⊢
      exact ofBytes_mark_two hmark

/-- The mark of 32-bit units, in the other order. -/
theorem unit_four_of_mark (h : 4 ≤ data.length) (hmark : unit host 4 byteSwapped data = 0xfeff) :
    unit host 4 (!byteSwapped) data = 0xfffe0000 := by
  match data, h with
  | a :: b :: c :: d :: rest, _ =>
    have hbig : ∀ {x}, unit .big 4 x (a :: b :: c :: d :: rest) =
        unit .little 4 (!x) (a :: b :: c :: d :: rest) := by
      rintro ⟨⟩ <;> rfl
    have hfalse : unit .little 4 false (a :: b :: c :: d :: rest) =
        BigEndian.ofBytes [d, c, b, a] := rfl
    have htrue : unit .little 4 true (a :: b :: c :: d :: rest) =
        BigEndian.ofBytes [a, b, c, d] := rfl
    cases host <;> cases byteSwapped
    all_goals
      simp only [hbig, Bool.not_true, Bool.not_false, hfalse, htrue] at hmark ⊢
      exact ofBytes_mark_four hmark

/-! ### One routine -/

/-- The units that a loop gets of `n + 1`, behind a mark that the code knows. -/
def markedUnits (host : ByteOrder) (width : ℕ) (data : Bytes) (n : ℕ) : List ℕ :=
  if unit host width false data = 0xfeff then units host width false (data.drop width) n
  else if unit host width false data = 0xfffe then units host width true (data.drop width) n
  else units host width false data (n + 1)

theorem markedTurns_eq {loop : Bool → Bytes → ℕ → Option (List Turn)} {f : List ℕ → List Turn}
    (hloop : ∀ {byteSwapped data n}, width * n ≤ data.length →
      loop byteSwapped data n = some (f (units host width byteSwapped data n)))
    (h : width * (n + 1) ≤ data.length) :
    markedTurns host width loop data (n + 1) = some (f (markedUnits host width data n)) := by
  have hfirst : width ≤ data.length := (Nat.le_mul_of_pos_right _ n.succ_pos).trans h
  have hdrop : width * n ≤ (data.drop width).length := by
    rw [List.length_drop]
    rw [Nat.mul_succ] at h
    omega
  rw [markedTurns, skipMark, decode_eq hfirst, markedUnits]
  dsimp only [Option.bind_eq_bind, Option.bind_some]
  split_ifs
  · exact hloop hdrop
  · exact hloop hdrop
  · exact hloop h

/-- What a routine does with data that is not empty. -/
theorem run_eq (r : Routine) (h : r.width * (n + 1) ≤ data.length) :
    r.run host data (n + 1) = some (Turn.text (r.turns (markedUnits host r.width data n))) := by
  cases r with
  | ucs2 => exact congrArg (Option.map Turn.text) (markedTurns_eq unitTurns_eq h)
  | ucs4 => exact congrArg (Option.map Turn.text) (markedTurns_eq unitTurns_eq h)
  | utf16 => exact congrArg (Option.map Turn.text) (markedTurns_eq utf16Turns_eq h)
  | utf32 => exact congrArg (Option.map Turn.text) (markedTurns_eq unitTurns_eq h)

/-- Each character adds one byte that is no continuation. -/
theorem countP_toUTF8 (c : ℕ) : (toUTF8 c).1.countP (fun b => !isContinuation b) = 1 := by
  have hcontinuation : ∀ x, isContinuation (continuation x) = true := by
    intro x
    have hsix : x &&& 0x3f = x % 64 := and_mask x 6
    rw [continuation, hsix]
    exact isContinuation_ofNat (Nat.mod_lt x (by decide))
  have hlead : ∀ {x}, x < 256 → x < 0x80 ∨ 0xc0 ≤ x → isContinuation (UInt8.ofNat x) = false := by
    intro x hx hcases
    rw [Bool.eq_false_iff]
    intro hcont
    rw [isContinuation_iff, toNat_ofNat hx] at hcont
    omega
  have hcount : ∀ {x} {rest : Bytes}, x < 256 → x < 0x80 ∨ 0xc0 ≤ x →
      (∀ b ∈ rest, isContinuation b = true) →
        (UInt8.ofNat x :: rest).countP (fun b => !isContinuation b) = 1 := by
    intro x rest hx hcases hrest
    rw [List.countP_cons_of_pos (by rw [hlead hx hcases]; rfl), List.countP_eq_zero.2]
    intro b hb
    rw [hrest b hb]
    exact Bool.false_ne_true
  have hmask : ∀ x k, x &&& (2 ^ k - 1) < 2 ^ k := by
    intro x k
    rw [and_mask]
    exact Nat.mod_lt x (Nat.two_pow_pos k)
  rw [toUTF8]
  dsimp only
  generalize (if ((0xd800 ≤ c && c ≤ 0xdfff) || decide (0x80000000 ≤ c)) = true then replacement
    else c) = c
  split_ifs with h₁ h₂ h₃ h₄ h₅
  · exact hcount (by omega) (.inl h₁) (by simp)
  · have hx : c >>> 6 &&& 0x1f < 0x20 := hmask (c >>> 6) 5
    exact hcount (by omega) (.inr (by omega)) (by simp [hcontinuation])
  · have hx : c >>> 12 &&& 0x0f < 0x10 := hmask (c >>> 12) 4
    exact hcount (by omega) (.inr (by omega)) (by simp [hcontinuation])
  · have hx : c >>> 18 &&& 0x07 < 0x08 := hmask (c >>> 18) 3
    exact hcount (by omega) (.inr (by omega)) (by simp [hcontinuation])
  · have hx : c >>> 24 &&& 0x03 < 0x04 := hmask (c >>> 24) 2
    exact hcount (by omega) (.inr (by omega)) (by simp [hcontinuation])
  · have hx : c >>> 30 &&& 0x01 < 0x02 := hmask (c >>> 30) 1
    exact hcount (by omega) (.inr (by omega)) (by simp [hcontinuation])

/-- The characters of a text can be counted. -/
theorem countP_text (turns : List Turn) :
    (Turn.text turns).1.countP (fun b => !isContinuation b) = turns.length := by
  induction turns with
  | nil => rfl
  | cons turn turns ih =>
    change ((toUTF8 turn.char).1 ++ (Turn.text turns).1).countP _ = _
    rw [List.countP_append, countP_toUTF8, ih, List.length_cons, Nat.add_comm]

/-- Each unit is a character, if it has 32 bits. -/
theorem length_turns {r : Routine} (hwidth : r.width = 4) (us : List ℕ) :
    (r.turns us).length = us.length := by
  cases r with
  | ucs2 => cases hwidth
  | utf16 => cases hwidth
  | ucs4 => exact List.length_map _
  | utf32 => exact List.length_map _

/-! ### Both orders -/

/-- The units of data that begins with a mark, in both orders. -/
theorem markedUnits_swapUnits_two (h : 2 * (n + 1) ≤ data.length)
    (hmark : unit host 2 byteSwapped data = 0xfeff) :
    markedUnits host 2 (swapUnits 2 data (n + 1)) n = markedUnits host 2 data n := by
  obtain ⟨hfirst, -⟩ := @unit_swapUnits host _ false _ _ h
  have hother := unit_two_of_mark (by omega) hmark
  cases byteSwapped with
  | false =>
    rw [markedUnits, markedUnits, hfirst, hother, hmark, if_neg (by decide), if_pos rfl,
      if_pos rfl]
    exact (unit_swapUnits h).2
  | true =>
    have hother' : unit host 2 false data = 0xfffe := hother
    rw [markedUnits, markedUnits, hfirst, hother', Bool.not_false, hmark, if_pos rfl,
      if_neg (by decide), if_pos rfl]
    exact (unit_swapUnits h).2

/-- The mark of swapped 32-bit units counts as a character. -/
theorem length_markedUnits_four (h : 4 ≤ data.length)
    (hmark : unit host 4 byteSwapped data = 0xfeff) :
    (markedUnits host 4 data n).length = if byteSwapped then n + 1 else n := by
  have hother := unit_four_of_mark h hmark
  cases byteSwapped with
  | false =>
    rw [markedUnits, hmark, if_pos rfl, length_units]
    rfl
  | true =>
    have hother' : unit host 4 false data = 0xfffe0000 := hother
    rw [markedUnits, hother', if_neg (by decide), if_neg (by decide), length_units]
    rfl

/-- Data that begins with a mark, in either order, is converted to the same text and the same error
flag as the data in the other order if and only if the units have 16 bits. -/
theorem run_swapUnits_iff (r : Routine) (host : ByteOrder) (hlen : data.length = r.width * (n + 1))
    (hmark : unit host r.width false data = 0xfeff ∨ unit host r.width true data = 0xfeff) :
    r.run host (swapUnits r.width data (n + 1)) (n + 1) = r.run host data (n + 1) ↔
      r.width = 2 := by
  have hswapped : r.width * (n + 1) ≤ (swapUnits r.width data (n + 1)).length := by
    rw [length_swapUnits hlen.ge, hlen]
  obtain ⟨byteSwapped, hmark⟩ : ∃ byteSwapped, unit host r.width byteSwapped data = 0xfeff :=
    hmark.elim (fun h => ⟨false, h⟩) fun h => ⟨true, h⟩
  rw [run_eq r hswapped, run_eq r hlen.ge]
  have hwidth : r.width = 2 ∨ r.width = 4 := by cases r <;> decide
  rcases hwidth with hwidth | hwidth
  · refine iff_of_true ?_ hwidth
    rw [hwidth] at hlen hmark ⊢
    rw [markedUnits_swapUnits_two hlen.ge hmark]
  · refine iff_of_false (fun hsame => ?_) (by omega)
    -- one of the texts has a character more
    have hcount := congrArg (fun text : Bytes × Bool => text.1.countP fun b => !isContinuation b)
      (Option.some.inj hsame)
    simp only [countP_text, length_turns hwidth] at hcount
    rw [hwidth] at hlen hmark hcount hswapped
    obtain ⟨hfirst, -⟩ := @unit_swapUnits host _ (!byteSwapped) _ _ hlen.ge
    rw [Bool.not_not, hmark] at hfirst
    rw [length_markedUnits_four (by omega) hfirst, length_markedUnits_four (by omega) hmark]
      at hcount
    cases byteSwapped <;> simp at hcount

/-- A mark and a letter in 16-bit units. -/
theorem run_swapUnits_letter :
    Routine.utf16.run .little (swapUnits 2 [0xff, 0xfe, 0x41, 0x00] 2) 2 =
      Routine.utf16.run .little [0xff, 0xfe, 0x41, 0x00] 2 :=
  (run_swapUnits_iff .utf16 .little rfl (.inl rfl)).2 rfl

/-- A mark and a letter in 32-bit units. -/
theorem not_run_swapUnits : ¬∀ (r : Routine) (host : ByteOrder) (data : Bytes) (n : ℕ),
    data.length = r.width * (n + 1) →
      (unit host r.width false data = 0xfeff ∨ unit host r.width true data = 0xfeff) →
        r.run host (swapUnits r.width data (n + 1)) (n + 1) = r.run host data (n + 1) := by
  intro h
  have hsame := h .utf32 .little [0xff, 0xfe, 0x00, 0x00, 0x41, 0x00, 0x00, 0x00] 1 rfl (.inl rfl)
  exact absurd hsame (by decide +kernel)

end Unicode

end InputLeap
