import InputLeap.Text.Scan
import Mathlib.Algebra.Order.Group.Int
import Mathlib.Tactic.IntervalCases

/-!
# Bytes in hexadecimal

Bytes are written with two digits each.  Colons between the bytes are passed over when they are
read.

## Main definitions

* `Hex.toHex`, `Hex.fromHex` : bytes to text and back.
* `Hex.Digits` : the texts that stand for bytes.

## Main results

* `Hex.fromHex_eq_iff` : what is read from a text is what it stands for.
* `Hex.digits_toHex` : what is written stands for the bytes.
-/

namespace InputLeap

namespace Hex

/-- The value of a digit, or `-1`. -/
def hexToNumber (ch : Char) : ℤ :=
  match ch with
  | '0' => 0
  | '1' => 1
  | '2' => 2
  | '3' => 3
  | '4' => 4
  | '5' => 5
  | '6' => 6
  | '7' => 7
  | '8' => 8
  | '9' => 9
  | 'a' => 10
  | 'b' => 11
  | 'c' => 12
  | 'd' => 13
  | 'e' => 14
  | 'f' => 15
  | 'A' => 10
  | 'B' => 11
  | 'C' => 12
  | 'D' => 13
  | 'E' => 14
  | 'F' => 15
  | _ => -1

/-- The number of a byte as `std::hex` prints it. -/
def number (b : UInt8) : Text :=
  if b.toNat < 16 then [Text.hexDigit b.toNat]
  else [Text.hexDigit (b.toNat / 16), Text.hexDigit (b.toNat % 16)]

/-- The text filled up on the left to some width. -/
def setw (width : ℕ) (fill : Char) (s : Text) : Text := List.replicate (width - s.length) fill ++ s

/-- The bytes as text. -/
def toHex (subject : List UInt8) (width : ℕ) (fill : Char) : Text :=
  subject.flatMap fun b => setw width fill (number b)

/-- The loop of `from_hex` over what is left of the text, with the bytes before it. -/
def fromHexLoop (result : List UInt8) : Text → List UInt8
  | [] => result
  | [c] => if c = ':' then result else [] -- uneven character count
  | c :: d :: rest =>
    if c = ':' then fromHexLoop result (d :: rest)
    else
      let high := hexToNumber c
      let low := hexToNumber d
      if high < 0 ∨ low < 0 then []
      else fromHexLoop (result ++ [UInt8.ofInt (high * 16 + low)]) rest

/-- The bytes in the text; there are none if it is not in hexadecimal. -/
def fromHex (data : Text) : List UInt8 := fromHexLoop [] data

/-! ### The texts that stand for bytes -/

/-- The character is the digit for `n`, in lower or upper case. -/
def IsDigit (c : Char) (n : ℕ) : Prop :=
  "0123456789abcdef".toList[n]? = some c ∨ "0123456789ABCDEF".toList[n]? = some c

/-- Two digits for each byte, and any colons before, between and behind the bytes. -/
inductive Digits : Text → List UInt8 → Prop
  | nil : Digits [] []
  | colon {s : Text} {bs : List UInt8} : Digits s bs → Digits (':' :: s) bs
  | byte {c d : Char} {s : Text} {b : UInt8} {bs : List UInt8} :
      IsDigit c (b.toNat / 16) → IsDigit d (b.toNat % 16) → Digits s bs →
        Digits (c :: d :: s) (b :: bs)

variable {c : Char} {n : ℕ} {s : Text} {bs : List UInt8}

theorem IsDigit.lt (h : IsDigit c n) : n < 16 := by
  rcases h with h | h
  · exact (List.getElem?_eq_some_iff.1 h).1
  · exact (List.getElem?_eq_some_iff.1 h).1

theorem hexToNumber_of_isDigit (h : IsDigit c n) : hexToNumber c = n := by
  have hn := h.lt
  rcases h with h | h
  · interval_cases n <;> cases h <;> rfl
  · interval_cases n <;> cases h <;> rfl

theorem isDigit_of_hexToNumber (h : 0 ≤ hexToNumber c) : IsDigit c (hexToNumber c).toNat := by
  unfold hexToNumber at h ⊢
  split at h
  all_goals first | exact Or.inl rfl | exact Or.inr rfl | exact absurd h (by decide)

theorem IsDigit.ne_colon (h : IsDigit c n) : c ≠ ':' := by
  rintro rfl
  have hcolon := hexToNumber_of_isDigit h
  rw [show hexToNumber ':' = -1 from rfl] at hcolon
  omega

theorem isDigit_hexDigit (h : n < 16) : IsDigit (Text.hexDigit n) n := by
  refine Or.inl ?_
  interval_cases n <;> rfl

/-! ### Reading -/

theorem ofInt_of_lt (h : n < 256) : UInt8.ofInt (n : ℤ) = UInt8.ofNat n := by
  rw [UInt8.ofInt, Int.emod_eq_of_lt (Int.natCast_nonneg n) (by omega), Int.toNat_natCast]

/-- Two digits that are read give a byte that has them. -/
theorem byte_of_hexToNumber {c d : Char} (hc : 0 ≤ hexToNumber c) (hd : 0 ≤ hexToNumber d) :
    IsDigit c ((UInt8.ofInt (hexToNumber c * 16 + hexToNumber d)).toNat / 16) ∧
      IsDigit d ((UInt8.ofInt (hexToNumber c * 16 + hexToNumber d)).toNat % 16) := by
  have hc' := isDigit_of_hexToNumber hc
  have hd' := isDigit_of_hexToNumber hd
  obtain ⟨m, hm⟩ := Int.eq_ofNat_of_zero_le hc
  obtain ⟨n, hn⟩ := Int.eq_ofNat_of_zero_le hd
  rw [hm, Int.toNat_natCast] at hc'
  rw [hn, Int.toNat_natCast] at hd'
  have hm16 := hc'.lt
  have hn16 := hd'.lt
  have hbyte : (UInt8.ofInt ((m : ℤ) * 16 + n)).toNat = m * 16 + n := by
    have hcast : (m : ℤ) * 16 + n = ((m * 16 + n : ℕ) : ℤ) := by push_cast; rfl
    rw [hcast, ofInt_of_lt (by omega)]
    exact UInt8.toNat_ofNat_of_lt' (by change _ < 256; omega)
  rw [hm, hn, hbyte]
  rw [show (m * 16 + n) / 16 = m by omega, show (m * 16 + n) % 16 = n by omega]
  exact ⟨hc', hd'⟩

theorem ofInt_of_isDigit {c d : Char} {b : UInt8} (hc : IsDigit c (b.toNat / 16))
    (hd : IsDigit d (b.toNat % 16)) :
    UInt8.ofInt (hexToNumber c * 16 + hexToNumber d) = b := by
  have hcast : ((b.toNat / 16 : ℕ) : ℤ) * 16 + (b.toNat % 16 : ℕ) = (b.toNat : ℤ) := by omega
  rw [hexToNumber_of_isDigit hc, hexToNumber_of_isDigit hd, hcast, ofInt_of_lt b.toNat_lt_size,
    UInt8.ofNat_toNat]

/-- The loop reads what stands for bytes. -/
theorem fromHexLoop_of_digits (h : Digits s bs) (result : List UInt8) :
    fromHexLoop result s = result ++ bs := by
  induction h generalizing result with
  | nil => exact (List.append_nil _).symm
  | @colon s bs _ ih =>
    cases s with
    | nil => exact ih result
    | cons c s => rw [fromHexLoop, if_pos rfl, ih]
  | @byte c d s b bs hc hd _ ih =>
    have hdigits : ¬(hexToNumber c < 0 ∨ hexToNumber d < 0) := by
      rw [hexToNumber_of_isDigit hc, hexToNumber_of_isDigit hd]
      omega
    rw [fromHexLoop, if_neg hc.ne_colon]
    simp only [if_neg hdigits, ofInt_of_isDigit hc hd, ih, List.append_assoc,
      List.singleton_append]

/-- The loop reads nothing, or what stands for bytes. -/
theorem fromHexLoop_cases (s : Text) (result : List UInt8) :
    fromHexLoop result s = [] ∨ ∃ bs, Digits s bs ∧ fromHexLoop result s = result ++ bs := by
  induction result, s using fromHexLoop.induct with
  | case1 result => exact Or.inr ⟨[], .nil, (List.append_nil _).symm⟩
  | case2 result => exact Or.inr ⟨[], .colon .nil, (List.append_nil _).symm⟩
  | case3 result c hc => exact Or.inl (if_neg hc)
  | case4 result d rest ih =>
    rw [fromHexLoop, if_pos rfl]
    exact ih.imp_right fun ⟨bs, hbs, h⟩ => ⟨bs, .colon hbs, h⟩
  | case5 result c d rest hc high low hbad =>
    rw [fromHexLoop, if_neg hc]
    exact Or.inl (if_pos hbad)
  | case6 result c d rest hc high low hgood ih =>
    have hturn : fromHexLoop result (c :: d :: rest) =
        fromHexLoop (result ++ [UInt8.ofInt (high * 16 + low)]) rest := by
      rw [fromHexLoop, if_neg hc]
      exact if_neg hgood
    rw [not_or, not_lt, not_lt] at hgood
    obtain ⟨hhigh, hlow⟩ := byte_of_hexToNumber hgood.1 hgood.2
    rw [hturn]
    refine ih.imp_right fun ⟨bs, hbs, h⟩ => ⟨_ :: bs, .byte hhigh hlow hbs, ?_⟩
    rw [h, List.append_assoc, List.singleton_append]

/-- Bytes that are read are those that the text stands for. -/
theorem fromHex_eq_iff (hne : bs ≠ []) : fromHex s = bs ↔ Digits s bs := by
  constructor
  · intro h
    rcases fromHexLoop_cases s [] with hnone | ⟨bs', hdigits, hbs⟩
    · exact absurd (h.symm.trans hnone) hne
    · obtain rfl : bs = bs' := h.symm.trans hbs
      exact hdigits
  · intro h
    exact fromHexLoop_of_digits h []

/-! ### Writing -/

theorem setw_number (b : UInt8) :
    setw 2 '0' (number b) = [Text.hexDigit (b.toNat / 16), Text.hexDigit (b.toNat % 16)] := by
  rw [number]
  split_ifs with h
  · rw [Nat.div_eq_of_lt h, Nat.mod_eq_of_lt h]
    rfl
  · rfl

/-- Bytes that are written with two digits each are what the text stands for. -/
theorem digits_toHex (bs : List UInt8) : Digits (toHex bs 2 '0') bs := by
  induction bs with
  | nil => exact .nil
  | cons b bs ih =>
    have hb : b.toNat < 256 := b.toNat_lt_size
    rw [toHex, List.flatMap_cons, setw_number]
    exact .byte (isDigit_hexDigit (by omega)) (isDigit_hexDigit (by omega)) ih

/-- No other characters are written. -/
theorem exists_hexDigit_of_mem_toHex (h : c ∈ toHex bs 2 '0') :
    ∃ n < 16, c = Text.hexDigit n := by
  obtain ⟨b, -, hc⟩ := List.mem_flatMap.1 h
  have hb : b.toNat < 256 := b.toNat_lt_size
  rw [setw_number, List.mem_cons, List.mem_singleton] at hc
  rcases hc with rfl | rfl
  · exact ⟨_, by omega, rfl⟩
  · exact ⟨_, by omega, rfl⟩

end Hex

end InputLeap
