import InputLeap.Protocol.Types
import Mathlib.Algebra.Order.Ring.Nat

/-!
# Numbers as bytes, least significant byte first

Unsigned numbers in a fixed number of bytes, and the number at a place of a list of bytes.

## Main definitions

* `LittleEndian.toBytes`, `LittleEndian.ofBytes` : a number as bytes and the number of bytes.
* `LittleEndian.load?` : the number at a place, if its bytes are there.

## Main results

* `LittleEndian.ofBytes_toBytes` : a number is read back as far as it fits.
* `LittleEndian.load?_toBytes`, `LittleEndian.load?_skip` : a number is loaded from its place.
* `LittleEndian.load?_eq_some`, `LittleEndian.load?_eq_none_iff` : what is loaded must lie in the
  list.
-/

namespace InputLeap

namespace LittleEndian

variable {k v pos : ℕ} {a t mem : Bytes}

/-- The first `k` bytes of a number. -/
def toBytes : ℕ → ℕ → Bytes
  | 0, _ => []
  | k + 1, v => UInt8.ofNat v :: toBytes k (v / 256)

/-- The number that the bytes stand for. -/
def ofBytes : Bytes → ℕ
  | [] => 0
  | b :: bytes => b.toNat + 256 * ofBytes bytes

/-- The number in the `k` bytes at a place. -/
def load? (k : ℕ) (mem : Bytes) (pos : ℕ) : Option ℕ :=
  if pos + k ≤ mem.length then some (ofBytes ((mem.drop pos).take k)) else none

@[simp] theorem length_toBytes (k v : ℕ) : (toBytes k v).length = k := by
  induction k generalizing v with
  | zero => rfl
  | succ k ih => rw [toBytes, List.length_cons, ih]

/-- **A number is read back** as far as it fits. -/
theorem ofBytes_toBytes (k v : ℕ) : ofBytes (toBytes k v) = v % 256 ^ k := by
  induction k generalizing v with
  | zero => exact (Nat.mod_one v).symm
  | succ k ih =>
    rw [toBytes, ofBytes, ih, UInt8.toNat_ofNat', pow_succ' 256 k, Nat.mod_mul (a := 256)]

theorem ofBytes_lt (bytes : Bytes) : ofBytes bytes < 256 ^ bytes.length := by
  induction bytes with
  | nil => exact Nat.one_pos
  | cons b bytes ih =>
    have hb := b.toNat_lt
    rw [ofBytes, List.length_cons, pow_succ]
    omega

theorem load?_eq_some (h : pos + k ≤ mem.length) :
    load? k mem pos = some (ofBytes ((mem.drop pos).take k)) := if_pos h

theorem load?_eq_none_iff : load? k mem pos = none ↔ mem.length < pos + k := by
  rw [load?]
  split_ifs with h
  · exact iff_of_false nofun (Nat.not_lt.2 h)
  · exact iff_of_true rfl (Nat.lt_of_not_le h)

/-- A number is loaded from where it stands. -/
theorem load?_toBytes (k v : ℕ) (t : Bytes) :
    load? k (toBytes k v ++ t) 0 = some (v % 256 ^ k) := by
  rw [load?, if_pos, List.drop_zero, List.take_left' (length_toBytes k v), ofBytes_toBytes]
  rw [List.length_append, length_toBytes]
  omega

/-- What stands before the place is passed over. -/
theorem load?_append (h : a.length ≤ pos) : load? k (a ++ t) pos = load? k t (pos - a.length) := by
  have hdrop : (a ++ t).drop pos = t.drop (pos - a.length) := by
    rw [List.drop_append, List.drop_eq_nil_of_le h, List.nil_append]
  rw [load?, load?, hdrop, List.length_append]
  exact if_congr (by omega) rfl rfl

/-- A number before the place is passed over. -/
theorem load?_skip {n : ℕ} (v : ℕ) (h : n ≤ pos) :
    load? k (toBytes n v ++ t) pos = load? k t (pos - n) := by
  rw [load?_append (by rwa [length_toBytes]), length_toBytes]

end LittleEndian

end InputLeap
