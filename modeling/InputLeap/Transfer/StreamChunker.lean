import InputLeap.Protocol.Types
import Mathlib.Data.List.TakeWhile
import Mathlib.Tactic.SplitIfs

/-!
# Cutting data into chunks

What `StreamChunker::sendFile` and `StreamChunker::sendClipboard` share: the loop that cuts the
data into chunks of at most `g_chunkSize` bytes, and the size of the data as decimal text, which
the first message of a transfer carries and the receiver reads back.

## Main results

* `flatten_chunks` : the chunks are the data.
* `stringToSizeType_toString` : the receiver reads the size that was written.
-/

namespace InputLeap

/-- A size as text (`std::to_string`). -/
def sizeToString (n : ℕ) : Bytes := (Nat.toDigits 10 n).map fun c => UInt8.ofNat c.toNat

/-- The characters that reading a number skips. -/
def isSpace (b : UInt8) : Bool := b == 32 || (9 ≤ b && b ≤ 13)

/-- The digits at the start of the text. -/
def leadingDigits (text : Bytes) : List Char :=
  (text.takeWhile fun b => 48 ≤ b && b ≤ 57).map fun b => Char.ofNat b.toNat

/-- The sign before a number, if there is one, and the rest of the text. -/
def splitSign : Bytes → Bool × Bytes
  | 45 :: rest => (true, rest)
  | 43 :: rest => (false, rest)
  | text => (false, text)

/-- The number that `operator>>` reads into a `size_t`: after blanks an optional sign and digits;
too large a number gives the largest `size_t` and no digits give 0. -/
def stringToSizeType (text : Bytes) : ℕ :=
  let (negative, digits) := splitSign (text.dropWhile isSpace)
  let n := Nat.ofDigitChars 10 (leadingDigits digits) 0
  if 2 ^ 64 ≤ n then 2 ^ 64 - 1 else if negative then (2 ^ 64 - n) % 2 ^ 64 else n

namespace StreamChunker

/-- The size of a chunk (`g_chunkSize`). -/
def chunkSize : ℕ := 32 * 1024

/-- The rest of the loop after `sentLength` bytes, for at most `fuel` more chunks.  Data that is
empty gives one chunk that is empty. -/
def chunksFrom (size : ℕ) (data : Bytes) : ℕ → ℕ → List Bytes
  | 0, _ => []
  | fuel + 1, sentLength =>
    let n := if sentLength + size > data.length then data.length - sentLength else size
    let chunk := (data.drop sentLength).take n
    if sentLength + n = data.length then [chunk]
    else chunk :: chunksFrom size data fuel (sentLength + n)

/-- The chunks of the data. -/
def chunks (data : Bytes) : List Bytes := chunksFrom chunkSize data (data.length + 1) 0

theorem flatten_chunksFrom {size : ℕ} (hsize : 0 < size) (data : Bytes) (fuel sentLength : ℕ)
    (hfuel : data.length - sentLength < fuel) (hsent : sentLength ≤ data.length) :
    (chunksFrom size data fuel sentLength).flatten = data.drop sentLength := by
  induction fuel generalizing sentLength with
  | zero => omega
  | succ fuel ih =>
    have hlen : (data.drop sentLength).length = data.length - sentLength := List.length_drop
    simp only [chunksFrom]
    split_ifs with h₁ h₂ h₃
    · simp [List.take_of_length_le (Nat.le_of_eq hlen)]
    · omega
    · simp [List.take_of_length_le (show (data.drop sentLength).length ≤ size by omega)]
    · rw [List.flatten_cons, ih (sentLength + size) (by omega) (by omega), ← List.drop_drop,
        List.take_append_drop]

/-- **The chunks are the data.** -/
theorem flatten_chunks (data : Bytes) : (chunks data).flatten = data := by
  have hsize : 0 < chunkSize := by decide
  have h := flatten_chunksFrom hsize data (data.length + 1) 0 (by omega) (Nat.zero_le _)
  simpa only [chunks, List.drop_zero] using h

end StreamChunker

theorem toNat_of_mem_toDigits {n : ℕ} {c : Char} (hc : c ∈ Nat.toDigits 10 n) :
    48 ≤ c.toNat ∧ c.toNat ≤ 57 := by
  have hd : c.isDigit := Nat.isDigit_of_mem_toDigits (by decide) (by decide) hc
  simpa using Char.isDigit_iff_toNat.1 hd

theorem toNat_of_mem_sizeToString {n : ℕ} {b : UInt8} (hb : b ∈ sizeToString n) :
    48 ≤ b.toNat ∧ b.toNat ≤ 57 := by
  obtain ⟨c, hc, rfl⟩ := List.mem_map.1 hb
  have h := toNat_of_mem_toDigits hc
  simp only [UInt8.toNat_ofNat']
  omega

theorem leadingDigits_sizeToString (n : ℕ) :
    leadingDigits (sizeToString n) = Nat.toDigits 10 n := by
  have hall : (sizeToString n).takeWhile (fun b => 48 ≤ b && b ≤ 57) = sizeToString n := by
    rw [List.takeWhile_eq_self_iff]
    intro b hb
    simpa [UInt8.le_iff_toNat_le] using toNat_of_mem_sizeToString hb
  rw [leadingDigits, hall, sizeToString, List.map_map]
  refine (List.map_congr_left fun c hc => ?_).trans (List.map_id _)
  have h := toNat_of_mem_toDigits hc
  simp only [Function.comp_apply, UInt8.toNat_ofNat', id_eq]
  rw [Nat.mod_eq_of_lt (by omega), Char.ofNat_toNat]

/-- Text that starts with a digit has no blanks or sign to skip. -/
theorem splitSign_sizeToString (n : ℕ) :
    splitSign ((sizeToString n).dropWhile isSpace) = (false, sizeToString n) := by
  have hne : sizeToString n ≠ [] := by simp [sizeToString, Nat.toDigits_ne_nil]
  obtain ⟨b, bs, hb⟩ := List.exists_cons_of_ne_nil hne
  have hdig : 48 ≤ b.toNat ∧ b.toNat ≤ 57 := toNat_of_mem_sizeToString (n := n) (by simp [hb])
  have hspace : isSpace b = false := by
    have h32 : b ≠ 32 := by
      rintro rfl
      simp at hdig
    have h13 : ¬ b ≤ 13 := by
      rw [UInt8.le_iff_toNat_le]
      simp
      omega
    simp [isSpace, h32, h13]
  rw [hb, List.dropWhile_cons_of_neg (by simp [hspace])]
  have h45 : b ≠ 45 := by
    rintro rfl
    simp at hdig
  have h43 : b ≠ 43 := by
    rintro rfl
    simp at hdig
  unfold splitSign
  split <;> simp_all

/-- **The receiver reads the size that was written.** -/
theorem stringToSizeType_sizeToString {n : ℕ} (hn : n < 2 ^ 64) :
    stringToSizeType (sizeToString n) = n := by
  simp only [stringToSizeType, splitSign_sizeToString, leadingDigits_sizeToString,
    Nat.ofDigitChars_ten_toDigits, Bool.false_eq_true, if_false]
  rw [if_neg (by omega)]

end InputLeap
