import InputLeap.Text.Scan
import Mathlib.Algebra.Order.Ring.Nat

/-!
# Printing into a buffer that grows

`string::sprintf` prints into a buffer of 1024 characters and doubles it until the text fits.  The
conversion of the arguments is the C library's, so the text that the format and its arguments
make is given here.

## Main definitions

* `Sprintf.vsnprintf` : the C library prints a text into a buffer.
* `Sprintf.turns` : some turns of the loop.
* `Sprintf.sprintf` : some turns of the loop from the first buffer on.

## Main results

* `Sprintf.isSome_sprintf` : the loop ends, whatever the text.
* `Sprintf.sprintf_eq_text_iff` : the texts that come back whole.
-/

namespace InputLeap

namespace Sprintf

/-- The character that ends a text in memory. -/
def nul : Char := Char.ofNat 0

/-- The largest `int`. -/
def intMax : ℕ := 2 ^ 31 - 1

/-- What `vsnprintf` leaves in a buffer of `len` characters, and what it returns: the length of
the text, or something negative when no `int` holds it. -/
def vsnprintf (text : Text) (len : ℕ) : Text × ℤ :=
  (text.take (len - 1) ++ [nul], if text.length ≤ intMax then text.length else -1)

/-- The text in memory up to the character that ends it. -/
def cString (buffer : Text) : Text := buffer.takeWhile (· != nul)

/-- How the loop ends. -/
inductive Outcome where
  /-- A text is returned. -/
  | result (s : Text)
  /-- The doubled length is no `int`. -/
  | overflow
  deriving DecidableEq

/-- Some turns of the loop with a buffer of `len` characters. -/
def turns : ℕ → ℕ → Text → Option Outcome
  | 0, _, _ => none
  | k + 1, len, text =>
    let (buffer, n) := vsnprintf text len
    if n < 0 ∨ n > len then
      if len * 2 ≤ intMax then turns k (len * 2) text else some .overflow
    else some (.result (cString buffer))

/-- Some turns of the loop, from the buffer on the stack on. -/
def sprintf (k : ℕ) (text : Text) : Option Outcome := turns k 1024 text

variable {text : Text} {len : ℕ}

/-! ### The text in memory -/

theorem cString_append_nul (s : Text) : cString (s ++ [nul]) = cString s := by
  induction s with
  | nil => rfl
  | cons c s ih =>
    rw [cString, cString, List.cons_append, List.takeWhile_cons, List.takeWhile_cons]
    exact congrArg (fun t => if (c != nul) = true then c :: t else []) ih

theorem cString_eq_self_iff : cString text = text ↔ nul ∉ text := by
  rw [cString, List.takeWhile_eq_self_iff]
  constructor
  · intro h hnul
    exact bne_iff_ne.1 (h nul hnul) rfl
  · intro h c hc
    exact bne_iff_ne.2 fun hcn => h (hcn ▸ hc)

/-- What is read back from a buffer that holds less than the text is not the text. -/
theorem cString_take_ne (h : len < text.length) : cString (text.take len) ≠ text := by
  have hle : (cString (text.take len)).length ≤ len :=
    (List.takeWhile_prefix _).length_le.trans (List.length_take_le _ _)
  intro heq
  rw [heq] at hle
  exact absurd h (not_lt.2 hle)

/-! ### One turn -/

/-- A buffer that is not too small ends the loop with what it holds. -/
theorem turns_of_le (h : text.length ≤ len) (hlen : len ≤ intMax) (k : ℕ) :
    turns (k + 1) len text = some (.result (cString (text.take (len - 1)))) := by
  have hfits : text.length ≤ intMax := h.trans hlen
  have hagain : ¬((text.length : ℤ) < 0 ∨ (text.length : ℤ) > len) := by omega
  simp only [turns, vsnprintf, if_pos hfits, if_neg hagain, cString_append_nul]

/-- A larger buffer ends the loop with the text. -/
theorem turns_of_lt (h : text.length < len) (hlen : len ≤ intMax) (hnul : nul ∉ text) (k : ℕ) :
    turns (k + 1) len text = some (.result text) := by
  rw [turns_of_le h.le hlen, List.take_of_length_le (by omega), cString_eq_self_iff.2 hnul]

/-- A smaller buffer is doubled. -/
theorem turns_of_gt (h : len < text.length) (k : ℕ) :
    turns (k + 1) len text =
      if len * 2 ≤ intMax then turns k (len * 2) text else some .overflow := by
  have hagain : (vsnprintf text len).2 < 0 ∨ (vsnprintf text len).2 > len := by
    rw [vsnprintf]
    split_ifs
    · exact Or.inr (by omega)
    · exact Or.inl (by omega)
  exact if_pos hagain

/-! ### The loop -/

/-- The loop takes at most one turn for each doubling that is left. -/
theorem isSome_turns (k : ℕ) (h : len * 2 ^ k = 2 ^ 30) : (turns (k + 1) len text).isSome := by
  induction k generalizing len with
  | zero =>
    have hlen : len = 2 ^ 30 := by rw [← h, Nat.pow_zero, Nat.mul_one]
    rcases le_or_gt text.length len with hle | hgt
    · rw [turns_of_le hle (by rw [hlen]; decide)]
      rfl
    · rw [turns_of_gt hgt, if_neg (by rw [hlen]; decide)]
      rfl
  | succ k ih =>
    have hnext : len * 2 * 2 ^ k = 2 ^ 30 := by rw [← h, Nat.pow_succ', Nat.mul_assoc]
    have hlen : len * 2 ≤ 2 ^ 30 := hnext ▸ Nat.le_mul_of_pos_right _ (Nat.two_pow_pos k)
    have hmax : len * 2 ≤ intMax := hlen.trans (by decide)
    rcases le_or_gt text.length len with hle | hgt
    · rw [turns_of_le hle (by omega)]
      rfl
    · rw [turns_of_gt hgt, if_pos hmax]
      exact ih hnext

/-- Whatever the text, the loop ends within 21 turns. -/
theorem isSome_sprintf (text : Text) : (sprintf 21 text).isSome :=
  isSome_turns 20 (by decide)

/-- A text that comes back fits into a buffer that is larger, and into none that is as large. -/
theorem of_turns_eq_result (k : ℕ) (hlen : len ≤ intMax) (hpos : 0 < len)
    (h : turns k len text = some (.result text)) :
    nul ∉ text ∧ (∃ j, text.length < len * 2 ^ j ∧ len * 2 ^ j ≤ intMax) ∧
      ∀ j, text.length ≠ len * 2 ^ j := by
  induction k generalizing len with
  | zero => cases h
  | succ k ih =>
    rcases le_or_gt text.length len with hle | hgt
    · rw [turns_of_le hle hlen] at h
      have htext : cString (text.take (len - 1)) = text := by
        injection Option.some.inj h
      have hlt : text.length < len := by
        by_contra hnot
        exact cString_take_ne (by omega) htext
      rw [List.take_of_length_le (by omega)] at htext
      refine ⟨cString_eq_self_iff.1 htext, ⟨0, ?_, ?_⟩, fun j => ?_⟩
      · rwa [Nat.pow_zero, Nat.mul_one]
      · rwa [Nat.pow_zero, Nat.mul_one]
      · exact (hlt.trans_le (Nat.le_mul_of_pos_right _ (Nat.two_pow_pos j))).ne
    · rw [turns_of_gt hgt] at h
      split_ifs at h with hmax
      · obtain ⟨hnul, ⟨j, hlt, hfit⟩, hne⟩ := ih hmax (by omega) h
        have hpow : ∀ j, len * 2 ^ (j + 1) = len * 2 * 2 ^ j := fun j => by
          rw [Nat.pow_succ', Nat.mul_assoc]
        refine ⟨hnul, ⟨j + 1, ?_, ?_⟩, fun i => ?_⟩
        · rwa [hpow]
        · rwa [hpow]
        · cases i with
          | zero =>
            rw [Nat.pow_zero, Nat.mul_one]
            exact hgt.ne'
          | succ i =>
            rw [hpow]
            exact hne i
      · cases h

/-- A text that no buffer is exactly as large as comes back from one of the doublings left. -/
theorem exists_turns_eq_result (k : ℕ) (h : len * 2 ^ k = 2 ^ 30) (hnul : nul ∉ text)
    (hlt : text.length < 2 ^ 30) (hne : ∀ j, text.length ≠ len * 2 ^ j) :
    turns (k + 1) len text = some (.result text) := by
  induction k generalizing len with
  | zero =>
    have hlen : len = 2 ^ 30 := by rw [← h, Nat.pow_zero, Nat.mul_one]
    exact turns_of_lt (hlen ▸ hlt) (by rw [hlen]; decide) hnul 0
  | succ k ih =>
    have hpow : ∀ j, len * 2 ^ (j + 1) = len * 2 * 2 ^ j := fun j => by
      rw [Nat.pow_succ', Nat.mul_assoc]
    have hnext : len * 2 * 2 ^ k = 2 ^ 30 := by rw [← h, hpow]
    have hlen : len * 2 ≤ 2 ^ 30 := hnext ▸ Nat.le_mul_of_pos_right _ (Nat.two_pow_pos k)
    have hmax : len * 2 ≤ intMax := hlen.trans (by decide)
    have hself : text.length ≠ len := by
      have := hne 0
      rwa [Nat.pow_zero, Nat.mul_one] at this
    rcases lt_or_gt_of_ne hself with hsmall | hgt
    · exact turns_of_lt hsmall (by omega) hnul (k + 1)
    · rw [turns_of_gt hgt, if_pos hmax]
      refine ih hnext fun j => ?_
      rw [← hpow]
      exact hne (j + 1)

/-- The texts that come back whole: those without the character that ends a text in memory that
are shorter than the last buffer and not exactly as long as one of the buffers. -/
theorem sprintf_eq_text_iff (text : Text) :
    (∃ k, sprintf k text = some (.result text)) ↔
      nul ∉ text ∧ text.length < 2 ^ 30 ∧ ∀ j, text.length ≠ 1024 * 2 ^ j := by
  constructor
  · rintro ⟨k, h⟩
    obtain ⟨hnul, ⟨j, hlt, hfit⟩, hne⟩ :=
      of_turns_eq_result k (by decide) (by decide) h
    have hj : j ≤ 20 := by
      by_contra hnot
      have hbig : 2 ^ 21 ≤ 2 ^ j := Nat.pow_le_pow_right Nat.two_pos (by omega)
      have : 2 ^ 31 - 1 < 1024 * 2 ^ j := by omega
      exact absurd hfit (not_le.2 this)
    have hsmall : 2 ^ j ≤ 2 ^ 20 := Nat.pow_le_pow_right Nat.two_pos hj
    exact ⟨hnul, by omega, hne⟩
  · rintro ⟨hnul, hlt, hne⟩
    exact ⟨21, exists_turns_eq_result 20 (by decide) hnul hlt hne⟩

/-- A text of 1024 characters loses its last one. -/
theorem sprintf_buffer_size :
    sprintf 1 (List.replicate 1024 'a') = some (.result (List.replicate 1023 'a')) ∧
      ∀ k, sprintf k (List.replicate 1024 'a') ≠ some (.result (List.replicate 1024 'a')) := by
  have hlength : (List.replicate 1024 'a').length = 1024 := List.length_replicate
  constructor
  · have hnul : nul ∉ List.replicate 1023 'a' := fun h =>
      absurd (List.eq_of_mem_replicate h) (by decide)
    have htake : (List.replicate 1024 'a').take (1024 - 1) = List.replicate 1023 'a' :=
      List.take_replicate
    rw [sprintf, turns_of_le hlength.le (by decide), htake, cString_eq_self_iff.2 hnul]
  · intro k h
    obtain ⟨-, -, hne⟩ := of_turns_eq_result k (by decide) (by decide) h
    exact hne 0 hlength

end Sprintf

end InputLeap
