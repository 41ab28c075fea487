import InputLeap.Text.Before
import InputLeap.Unicode.ByteOrder
import InputLeap.Unicode.RoundTrip

/-!
# Text on the clipboard of Windows

A block of memory holds the text, with the ends of lines that Windows wants and in the encoding of
the clipboard's format.

## Main definitions

* `AnyTextConverter.fromIClipboard`, `AnyTextConverter.toIClipboard` : the converter, for any
  encoding.
* `UTF16Converter.doFromIClipboard`, `UTF16Converter.doToIClipboard` : the encoding.
* `UTF16Converter.RoundTrip` : text that is put on the clipboard is read back as it was.
* `UTF16Converter.Fits` : the sizes on the way can be written with 32 bits.

## Main results

* `AnyTextConverter.unix_win32` : the ends of lines come back.
* `UTF16Converter.keeps_text` : text comes back if it fits.
-/

namespace InputLeap

namespace AnyTextConverter

open Text

/-! ### Ends of lines -/

/-- A carriage return before each line feed. -/
def convertLinefeedToWin32 (src : Bytes) : Bytes :=
  let n := src.length % 2 ^ 32
  let numNewlines := (src.take n).count 10
  if numNewlines = 0 then src else putBefore 13 10 (src.take n)

/-- The number of carriage returns among the first `n` bytes that a line feed follows. -/
def countNewlines : ℕ → Bytes → ℕ
  | n + 1, c :: rest =>
    (if c = 13 ∧ rest.head? = some 10 then 1 else 0) + countNewlines n rest
  | _, _ => 0

/-- The first `n` bytes without these carriage returns. -/
def copyNewlines : ℕ → Bytes → Bytes
  | n + 1, c :: rest =>
    if c ≠ 13 ∨ rest.head? ≠ some 10 then c :: copyNewlines n rest else copyNewlines n rest
  | _, _ => []

/-- Line feeds without the carriage returns before them. -/
def convertLinefeedToUnix (src : Bytes) : Bytes :=
  let n := src.length % 2 ^ 32
  if countNewlines n src = 0 then src else copyNewlines n src

/-! ### Blocks of memory -/

/-- The block for some data: the text and what the system puts behind it, as a block may be larger
than it has to be.  A block of no bytes cannot be locked. -/
def fromIClipboard (doFrom : Bytes → Option Bytes) (extra data : Bytes) : Option Bytes :=
  (doFrom (convertLinefeedToWin32 data)).bind fun text =>
    let size := text.length % 2 ^ 32
    if size = 0 then none else some (text.take size ++ extra)

/-- The data in a block. -/
def toIClipboard (doTo : Bytes → Option Bytes) (block : Bytes) : Option Bytes :=
  let srcSize := block.length % 2 ^ 32
  if srcSize ≤ 1 then some [] else (doTo (block.take srcSize)).map convertLinefeedToUnix

/-! ### Text with the ends of lines of Windows -/

variable {src x text : Bytes} {n : ℕ}

theorem convertLinefeedToWin32_eq (h : src.length < 2 ^ 32) :
    convertLinefeedToWin32 src = putBefore 13 10 src := by
  unfold convertLinefeedToWin32
  dsimp only
  rw [Nat.mod_eq_of_lt h, List.take_length]
  split_ifs with hcount
  · exact (putBefore_of_not_mem (List.count_eq_zero.1 hcount)).symm
  · rfl

/-- Where nothing is counted, nothing is left out. -/
theorem copyNewlines_eq_take (h : countNewlines n src = 0) : copyNewlines n src = src.take n := by
  induction n generalizing src with
  | zero => rw [copyNewlines, List.take_zero]; exact nofun
  | succ n ih =>
    cases src with
    | nil => rfl
    | cons c rest =>
      rw [countNewlines, Nat.add_eq_zero_iff] at h
      have hkeep : c ≠ 13 ∨ rest.head? ≠ some 10 := by
        by_contra hnot
        obtain ⟨hc, hrest⟩ := not_or.1 hnot
        rw [if_pos ⟨not_not.1 hc, not_not.1 hrest⟩] at h
        exact absurd h.1 one_ne_zero
      rw [copyNewlines, if_pos hkeep, ih h.2, List.take_succ_cons]

theorem copyNewlines_eq (h : src.length ≤ n) : copyNewlines n src = dropBefore 13 10 src := by
  induction src generalizing n with
  | nil => cases n <;> rfl
  | cons c rest ih =>
    cases n with
    | zero => exact absurd h (Nat.not_succ_le_zero _)
    | succ n =>
      rw [copyNewlines, dropBefore, ih (Nat.le_of_succ_le_succ h)]
      by_cases hmark : c = 13 ∧ rest.head? = some 10
      · rw [if_pos hmark, if_neg (by tauto)]
      · rw [if_neg hmark, if_pos (not_and_or.1 hmark)]

theorem length_copyNewlines_le (n : ℕ) (src : Bytes) : (copyNewlines n src).length ≤ n := by
  induction n generalizing src with
  | zero => rw [copyNewlines]; exacts [le_rfl, nofun]
  | succ n ih =>
    cases src with
    | nil => exact Nat.zero_le _
    | cons c rest =>
      rw [copyNewlines]
      split_ifs
      · exact Nat.succ_le_succ (ih rest)
      · exact (ih rest).trans n.le_succ

theorem convertLinefeedToUnix_eq (h : src.length < 2 ^ 32) :
    convertLinefeedToUnix src = dropBefore 13 10 src := by
  unfold convertLinefeedToUnix
  dsimp only
  rw [Nat.mod_eq_of_lt h]
  split_ifs with hcount
  · rw [← copyNewlines_eq le_rfl, copyNewlines_eq_take hcount, List.take_length]
  · exact copyNewlines_eq le_rfl

/-- **The ends of lines come back.** -/
theorem unix_win32 (h : src.length < 2 ^ 31) :
    convertLinefeedToUnix (convertLinefeedToWin32 src) = src := by
  have hcount : src.count 10 ≤ src.length := List.count_le_length
  have hlength : (putBefore (13 : UInt8) 10 src).length < 2 ^ 32 := by
    rw [length_putBefore]
    omega
  rw [convertLinefeedToWin32_eq (by omega), convertLinefeedToUnix_eq hlength,
    dropBefore_putBefore (by decide)]

/-- Text comes only from text with the ends of lines of Windows that is short enough. -/
theorem putBefore_of_unix (hx : Preceded 13 10 x) (hlen : x.length ≤ 2 * text.length)
    (htext : text.length < 2 ^ 32) (h : convertLinefeedToUnix x = text) :
    x.length < 2 ^ 32 ∧ putBefore 13 10 text = x := by
  have hsmall : x.length < 2 ^ 32 := by
    by_contra hlarge
    unfold convertLinefeedToUnix at h
    dsimp only at h
    split_ifs at h
    · rw [h] at hlarge
      exact hlarge htext
    · have hle := length_copyNewlines_le (x.length % 2 ^ 32) x
      rw [h] at hle
      omega
  rw [convertLinefeedToUnix_eq hsmall] at h
  exact ⟨hsmall, by rw [← h, putBefore_dropBefore (by decide) hx]⟩

end AnyTextConverter

namespace UTF16Converter

open Text Unicode AnyTextConverter

/-- The text in UTF-16 with a terminator. -/
def doFromIClipboard (data : Bytes) : Option Bytes :=
  (UTF8ToUTF16 .little data).map fun dst => dst.1 ++ [0, 0]

/-- The text in UTF-8 up to the terminator. -/
def doToIClipboard (data : Bytes) : Option Bytes :=
  (UTF16ToUTF8 .little data).map fun dst => dst.1.takeWhile (· != 0)

/-- Text that is put on the clipboard is read back as it was, where the system makes a block no more
than `slack` bytes larger than it has to be. -/
def RoundTrip (slack : ℕ) (data : Bytes) : Prop :=
  ∀ extra : Bytes, extra.length ≤ slack →
    ∃ block, fromIClipboard doFromIClipboard extra data = some block ∧
      toIClipboard doToIClipboard block = some data

/-- The text with the ends of lines of Windows and its block have fewer than `2 ^ 32` bytes. -/
structure Fits (slack : ℕ) (cs : List Char) : Prop where
  text : (cs.flatMap String.utf8EncodeChar).length + cs.count '\n' < 2 ^ 32
  block : 2 * ((cs.flatMap encodeUTF16).length + cs.count '\n' + 1) + slack < 2 ^ 32

/-- The character is not the terminator, a byte-order mark or one that is not for exchange. -/
def Plain (c : Char) : Prop :=
  c.toNat ≠ 0 ∧ c.toNat ≠ 0xfeff ∧ c.toNat ≠ 0xfffe ∧ c.toNat ≠ 0xffff

/-- The text with the ends of lines of Windows. -/
def winChars (cs : List Char) : List Char := putBefore '\r' '\n' cs

variable {cs : List Char} {slack : ℕ}

/-! ### Ends of lines in characters -/

theorem putBefore_utf8 (cs : List Char) :
    putBefore 13 10 (cs.flatMap String.utf8EncodeChar) =
      (winChars cs).flatMap String.utf8EncodeChar := by
  induction cs with
  | nil => rfl
  | cons c cs ih =>
    rw [List.flatMap_cons, putBefore_append, ih, winChars, winChars, putBefore_cons,
      List.flatMap_append,
      List.flatMap_cons, ← List.append_assoc]
    refine congrArg (· ++ _) ?_
    by_cases hc : c = '\n'
    · rw [hc]
      rfl
    · have hnone : 10 ∉ String.utf8EncodeChar c := fun hmem =>
        hc (Char.toNat_inj.1 ((mem_utf8EncodeChar_iff (by decide)).1 hmem))
      rw [putBefore_of_not_mem hnone, if_neg hc]
      rfl

theorem length_utf8_putBefore (cs : List Char) :
    ((winChars cs).flatMap String.utf8EncodeChar).length =
      (cs.flatMap String.utf8EncodeChar).length + cs.count '\n' :=
  (length_flatMap_putBefore _ cs).trans (congrArg _ (Nat.mul_one _))

theorem length_units_putBefore (cs : List Char) :
    ((winChars cs).flatMap encodeUTF16).length =
      (cs.flatMap encodeUTF16).length + cs.count '\n' :=
  (length_flatMap_putBefore _ cs).trans (congrArg _ (Nat.mul_one _))

theorem utf8_ne_nil (h : cs ≠ []) : cs.flatMap String.utf8EncodeChar ≠ [] := by
  cases cs with
  | nil => exact absurd rfl h
  | cons c cs =>
    rw [List.flatMap_cons]
    exact List.append_ne_nil_of_left_ne_nil
      (List.ne_nil_of_length_pos (length_utf8EncodeChar_pos c)) _

/-- There is a byte for each line feed. -/
theorem count_le_length (cs : List Char) :
    cs.count '\n' ≤ (cs.flatMap String.utf8EncodeChar).length := by
  refine List.count_le_length.trans ?_
  induction cs with
  | nil => exact le_rfl
  | cons c cs ih =>
    have hpos := length_utf8EncodeChar_pos c
    rw [List.flatMap_cons, List.length_append, List.length_cons]
    omega

theorem plain_winChars (h : ∀ c ∈ cs, Plain c) : ∀ c ∈ winChars cs, Plain c := by
  intro c hc
  rcases mem_putBefore hc with rfl | hc
  · exact ⟨by decide, by decide, by decide, by decide⟩
  · exact h c hc

theorem preceded_winChars (cs : List Char) :
    Preceded 13 10 ((winChars cs).flatMap String.utf8EncodeChar) := by
  rw [← putBefore_utf8]
  exact preceded_putBefore (by decide) _

/-! ### The encoding -/

/-- The units of a text and the terminator in memory. -/
def encoded (cs : List Char) : Bytes :=
  (cs.flatMap encodeUTF16 ++ [0]).flatMap (ByteOrder.little.toBytes 2)

theorem length_encoded (cs : List Char) :
    (encoded cs).length = 2 * ((cs.flatMap encodeUTF16).length + 1) := by
  rw [encoded, length_flatMap_toBytes, List.length_append, List.length_singleton]

theorem doFromIClipboard_chars (h : ∀ c ∈ cs, Plain c) :
    doFromIClipboard (cs.flatMap String.utf8EncodeChar) = some (encoded cs) := by
  have hbytes : ([0, 0] : Bytes) = ByteOrder.little.toBytes 2 0 := rfl
  rw [doFromIClipboard, UTF8ToUTF16_chars fun c hc => (h c hc).2.2, Option.map_some, encoded,
    List.flatMap_append, List.flatMap_singleton, hbytes]

theorem units_lt (cs : List Char) : ∀ u ∈ cs.flatMap encodeUTF16, u < 65536 := by
  intro u hu
  obtain ⟨c, -, hc⟩ := List.mem_flatMap.1 hu
  exact lt_of_mem_encodeUTF16 hc

/-- The first unit of a text and its terminator is not a byte-order mark. -/
theorem unit_encoded (h : ∀ c ∈ cs, Plain c) (rest : Bytes) :
    unit .little 2 false (encoded cs ++ rest) ≠ 0xfeff ∧
      unit .little 2 false (encoded cs ++ rest) ≠ 0xfffe := by
  obtain ⟨u, us, hus, hu, hmark⟩ : ∃ u us, cs.flatMap encodeUTF16 ++ [0] = u :: us ∧ u < 65536 ∧
      u ≠ 0xfeff ∧ u ≠ 0xfffe := by
    cases cs with
    | nil => exact ⟨0, [], rfl, by decide, by decide, by decide⟩
    | cons c cs =>
      have hc := h c List.mem_cons_self
      have hscalar := char_cases c
      rw [List.flatMap_cons, encodeUTF16]
      split_ifs with hsmall
      · exact ⟨_, _, rfl, by omega, hc.2.1, hc.2.2.1⟩
      · exact ⟨_, _, rfl, by omega, by omega, by omega⟩
  have hlen : (ByteOrder.little.toBytes 2 u).length = 2 := length_toBytes .little 2 u
  rwa [encoded, hus, List.flatMap_cons, List.append_assoc, unit, List.take_left' hlen,
    if_neg Bool.false_ne_true, ofBytes_toBytes hu]

/-- The units of a text, its terminator and what is behind it. -/
theorem markedUnits_encoded (h : ∀ c ∈ cs, Plain c) (rest : Bytes) :
    markedUnits .little 2 (encoded cs ++ rest)
        ((cs.flatMap encodeUTF16).length + rest.length / 2) =
      cs.flatMap encodeUTF16 ++ 0 :: units .little 2 false rest (rest.length / 2) := by
  have hbound : ∀ u ∈ cs.flatMap encodeUTF16 ++ [0], u < 65536 := by
    intro u hu
    rcases List.mem_append.1 hu with hu | hu
    · exact units_lt cs u hu
    · rw [List.mem_singleton.1 hu]
      decide
  obtain ⟨hmark, hswapped⟩ := unit_encoded h rest
  have hread := @units_flatMap_append .little _ hbound rest (rest.length / 2)
  rw [List.length_append, List.length_singleton, Nat.add_right_comm, ← List.append_cons] at hread
  rw [markedUnits, if_neg hmark, if_neg hswapped]
  exact hread

/-- The text up to its terminator. -/
theorem takeWhile_text (h : ∀ c ∈ cs, Plain c) (us : List ℕ) :
    (Turn.text (surrogateTurns (cs.flatMap encodeUTF16 ++ 0 :: us))).1.takeWhile (· != 0) =
      cs.flatMap String.utf8EncodeChar := by
  have hnul : ∃ t, (Turn.text (surrogateTurns (0 :: us))).1 = 0 :: t := by
    cases us with
    | nil => exact ⟨_, rfl⟩
    | cons u us =>
      rw [surrogateTurns, if_pos (.inl (by decide)), text_cons]
      exact ⟨_, rfl⟩
  have hbytes : ∀ b ∈ cs.flatMap String.utf8EncodeChar, (b != 0) = true := by
    intro b hb
    obtain ⟨c, hc, hb⟩ := List.mem_flatMap.1 hb
    refine bne_iff_ne.2 ?_
    rintro rfl
    exact (h c hc).1 ((mem_utf8EncodeChar_iff (by decide)).1 hb)
  obtain ⟨t, ht⟩ := hnul
  rw [text_chars_append, ht, List.takeWhile_append_of_pos hbytes,
    List.takeWhile_cons_of_neg (by decide), List.append_nil]

/-- What is behind the terminator does not matter. -/
theorem doToIClipboard_encoded (h : ∀ c ∈ cs, Plain c) {rest : Bytes}
    (hsize : (encoded cs ++ rest).length < 2 ^ 32) :
    doToIClipboard (encoded cs ++ rest) = some (cs.flatMap String.utf8EncodeChar) := by
  have hlen := length_encoded cs
  have hnumber : ((encoded cs ++ rest).length % 2 ^ 32) >>> 1 =
      (cs.flatMap encodeUTF16).length + rest.length / 2 + 1 := by
    rw [Nat.mod_eq_of_lt hsize, Nat.shiftRight_eq_div_pow, List.length_append, hlen]
    omega
  have hfits : 2 * ((cs.flatMap encodeUTF16).length + rest.length / 2 + 1) ≤
      (encoded cs ++ rest).length := by
    rw [List.length_append, hlen]
    omega
  have hrun : doUTF16ToUTF8 .little (encoded cs ++ rest)
      ((cs.flatMap encodeUTF16).length + rest.length / 2 + 1) =
        some (Turn.text (surrogateTurns (markedUnits .little 2 (encoded cs ++ rest)
          ((cs.flatMap encodeUTF16).length + rest.length / 2)))) := run_eq .utf16 hfits
  rw [markedUnits_encoded h] at hrun
  rw [doToIClipboard, UTF16ToUTF8, hnumber]
  exact (congrArg _ hrun).trans (congrArg some (takeWhile_text h _))

/-- What becomes of the first units of a text. -/
theorem doToIClipboard_take (h : ∀ c ∈ cs, Plain c) {n : ℕ} (hn : n < 2 ^ 31) :
    doToIClipboard (((cs.flatMap encodeUTF16).take n).flatMap (ByteOrder.little.toBytes 2)) =
      some ((Turn.text (surrogateTurns ((cs.flatMap encodeUTF16).take n))).1.takeWhile
        (· != 0)) := by
  have hbound : ∀ u ∈ (cs.flatMap encodeUTF16).take n, u < 65536 := fun u hu =>
    units_lt cs u (List.mem_of_mem_take hu)
  have hle : ((cs.flatMap encodeUTF16).take n).length ≤ n := List.length_take_le _ _
  have hnumber : (2 * ((cs.flatMap encodeUTF16).take n).length % 2 ^ 32) >>> 1 =
      ((cs.flatMap encodeUTF16).take n).length := by
    rw [Nat.shiftRight_eq_div_pow]
    omega
  have hmark : ∀ c ∈ cs.head?, c.toNat ≠ 0xfeff := fun c hc =>
    (h c (List.mem_of_mem_head? hc)).2.1
  rw [doToIClipboard, UTF16ToUTF8, doUTF16ToUTF8, length_flatMap_toBytes, hnumber,
    markedTurns_utf16 hbound le_rfl, List.take_length,
    textUnits_chars (fun c hc => (h c hc).2.2.1) hmark]
  rfl

/-- The first units of a text with the ends of lines of Windows make such a text, a shorter one. -/
theorem preceded_take {n : ℕ} (hn : n < ((winChars cs).flatMap encodeUTF16).length) :
    ∃ x, (Turn.text (surrogateTurns (((winChars cs).flatMap encodeUTF16).take n))).1.takeWhile
        (· != 0) = x ∧ Preceded 13 10 x ∧
      x.length < ((winChars cs).flatMap String.utf8EncodeChar).length := by
  refine ⟨_, rfl, ?_, ?_⟩
  · obtain ⟨j, cut, hcut, htext, -⟩ := text_take n hn
    have hpre : ((winChars cs).take j).flatMap String.utf8EncodeChar <+:
        (winChars cs).flatMap String.utf8EncodeChar :=
      ⟨((winChars cs).drop j).flatMap String.utf8EncodeChar, by
        rw [← List.flatMap_append, List.take_append_drop]⟩
    have hnone : (10 : UInt8) ∉ cut := by
      rcases hcut with rfl | rfl
      · exact List.not_mem_nil
      · decide
    refine Preceded.of_isPrefix ?_ (List.takeWhile_prefix _)
    rw [htext]
    exact ((preceded_winChars cs).of_isPrefix hpre).append hnone
  · exact (List.takeWhile_prefix _).length_le.trans_lt (length_text_take n hn)

/-! ### Blocks -/

/-- The block for a text. -/
theorem fromIClipboard_chars (h : ∀ c ∈ cs, Plain c)
    (hsize : (cs.flatMap String.utf8EncodeChar).length < 2 ^ 32) (extra : Bytes) :
    fromIClipboard doFromIClipboard extra (cs.flatMap String.utf8EncodeChar) =
      if (encoded (winChars cs)).length % 2 ^ 32 = 0 then none
      else some ((encoded (winChars cs)).take ((encoded (winChars cs)).length % 2 ^ 32) ++
        extra) := by
  rw [fromIClipboard, convertLinefeedToWin32_eq hsize, putBefore_utf8,
    doFromIClipboard_chars (plain_winChars h)]
  rfl

/-- A block that fits has the whole text in it. -/
theorem fromIClipboard_of_lt (h : ∀ c ∈ cs, Plain c)
    (hsize : (cs.flatMap String.utf8EncodeChar).length < 2 ^ 32)
    (hblock : (encoded (winChars cs)).length < 2 ^ 32) (extra : Bytes) :
    fromIClipboard doFromIClipboard extra (cs.flatMap String.utf8EncodeChar) =
      some (encoded (winChars cs) ++ extra) := by
  have hpos : (encoded (winChars cs)).length ≠ 0 := by
    rw [length_encoded]
    omega
  rw [fromIClipboard_chars h hsize, Nat.mod_eq_of_lt hblock, if_neg hpos, List.take_length]

/-- What is read from a block that fits. -/
theorem toIClipboard_of_lt (h : ∀ c ∈ cs, Plain c) {extra : Bytes}
    (hblock : (encoded (winChars cs) ++ extra).length < 2 ^ 32) :
    toIClipboard doToIClipboard (encoded (winChars cs) ++ extra) =
      some (convertLinefeedToUnix ((winChars cs).flatMap String.utf8EncodeChar)) := by
  have hlen := length_encoded (winChars cs)
  have hpos : ¬(encoded (winChars cs) ++ extra).length ≤ 1 := by
    rw [List.length_append]
    omega
  unfold toIClipboard
  dsimp only
  rw [Nat.mod_eq_of_lt hblock, if_neg hpos, List.take_length,
    doToIClipboard_encoded (plain_winChars h) hblock]
  rfl

/-- What is read from a block that is too small for its text. -/
theorem toIClipboard_take (h : ∀ c ∈ cs, Plain c) {n : ℕ} (hpos : 0 < n) (hn : n < 2 ^ 31)
    (hless : n < ((winChars cs).flatMap encodeUTF16).length) :
    ∃ x, toIClipboard doToIClipboard ((encoded (winChars cs)).take (2 * n)) =
        some (convertLinefeedToUnix x) ∧ Preceded 13 10 x ∧
      x.length < ((winChars cs).flatMap String.utf8EncodeChar).length := by
  have hunits : (encoded (winChars cs)).take (2 * n) =
      (((winChars cs).flatMap encodeUTF16).take n).flatMap (ByteOrder.little.toBytes 2) := by
    rw [encoded, take_flatMap_toBytes, List.take_append_of_le_length hless.le]
  have hlen : ((encoded (winChars cs)).take (2 * n)).length = 2 * n := by
    rw [List.length_take, length_encoded]
    omega
  obtain ⟨x, hx, hpreceded, hshort⟩ := preceded_take hless
  refine ⟨x, ?_, hpreceded, hshort⟩
  unfold toIClipboard
  dsimp only
  rw [hlen, Nat.mod_eq_of_lt (by omega), if_neg (by omega), List.take_take, Nat.min_self, hunits,
    doToIClipboard_take (plain_winChars h) hn, hx]
  rfl

/-- Text that comes back has room in a block. -/
theorem block_of_roundTrip (h : ∀ c ∈ cs, Plain c)
    (hsize : (cs.flatMap String.utf8EncodeChar).length < 2 ^ 32) (hne : cs ≠ [])
    (hback : RoundTrip slack (cs.flatMap String.utf8EncodeChar)) :
    2 * ((cs.flatMap encodeUTF16).length + cs.count '\n' + 1) + slack < 2 ^ 32 := by
  have hunits := length_units_putBefore cs
  have hlen := length_encoded (winChars cs)
  by_contra hlarge
  rcases Nat.lt_or_ge (encoded (winChars cs)).length (2 ^ 32) with hblock | hblock
  · -- the system makes the block larger, and its size becomes zero
    obtain ⟨block, hfrom, hto⟩ := hback
      (List.replicate (2 ^ 32 - (encoded (winChars cs)).length) 0) (by
        rw [List.length_replicate]
        omega)
    rw [fromIClipboard_of_lt h hsize hblock] at hfrom
    have hzero : block.length % 2 ^ 32 = 0 := by
      rw [← Option.some.inj hfrom, List.length_append, List.length_replicate]
      omega
    unfold toIClipboard at hto
    dsimp only at hto
    rw [hzero, if_pos zero_le_one] at hto
    exact utf8_ne_nil hne (Option.some.inj hto).symm
  · -- the size of the text is cut
    obtain ⟨block, hfrom, hto⟩ := hback [] (Nat.zero_le _)
    rw [fromIClipboard_chars h hsize] at hfrom
    split_ifs at hfrom with hzero
    have hhalf : (encoded (winChars cs)).length % 2 ^ 32 =
        2 * ((encoded (winChars cs)).length % 2 ^ 32 / 2) := by omega
    obtain ⟨x, hx, hpreceded, hshort⟩ := @toIClipboard_take _ h
      ((encoded (winChars cs)).length % 2 ^ 32 / 2) (by omega) (by omega) (by omega)
    rw [← Option.some.inj hfrom, List.append_nil, hhalf, hx] at hto
    have hbytes := length_utf8_putBefore cs
    have hcount := count_le_length cs
    obtain ⟨-, hsame⟩ := putBefore_of_unix hpreceded (by omega) hsize (Option.some.inj hto)
    rw [← hsame, putBefore_utf8] at hshort
    exact lt_irrefl _ hshort

/-- Text that comes back fits. -/
theorem fits_of_roundTrip (h : ∀ c ∈ cs, Plain c)
    (hsize : (cs.flatMap String.utf8EncodeChar).length < 2 ^ 32) (hne : cs ≠ [])
    (hback : RoundTrip slack (cs.flatMap String.utf8EncodeChar)) : Fits slack cs := by
  have hroom := block_of_roundTrip h hsize hne hback
  have hlen := length_encoded (winChars cs)
  have hunits := length_units_putBefore cs
  have hbytes := length_utf8_putBefore cs
  have hcount := count_le_length cs
  obtain ⟨block, hfrom, hto⟩ := hback [] (Nat.zero_le _)
  rw [fromIClipboard_of_lt h hsize (by omega)] at hfrom
  rw [← Option.some.inj hfrom, toIClipboard_of_lt h (by
    rw [List.append_nil]
    omega)] at hto
  obtain ⟨hsmall, -⟩ :=
    putBefore_of_unix (preceded_winChars cs) (by omega) hsize (Option.some.inj hto)
  exact ⟨by omega, hroom⟩

/-- Text that fits comes back. -/
theorem roundTrip_of_fits (h : ∀ c ∈ cs, Plain c) (hfits : Fits slack cs) :
    RoundTrip slack (cs.flatMap String.utf8EncodeChar) := by
  intro extra hextra
  obtain ⟨htext, hroom⟩ := hfits
  have hlen := length_encoded (winChars cs)
  have hunits := length_units_putBefore cs
  have hbytes := length_utf8_putBefore cs
  have hblock : (encoded (winChars cs) ++ extra).length < 2 ^ 32 := by
    rw [List.length_append]
    omega
  refine ⟨_, fromIClipboard_of_lt h (by omega) (by omega) extra, ?_⟩
  rw [toIClipboard_of_lt h hblock, convertLinefeedToUnix_eq (by omega), ← putBefore_utf8,
    dropBefore_putBefore (by decide)]

/-- There is nothing to lose in an empty text. -/
theorem roundTrip_nil (slack : ℕ) : RoundTrip slack [] := by
  rintro extra -
  have hplain : ∀ c ∈ ([] : List Char), Plain c := nofun
  have hlen : (encoded []).length = 2 := rfl
  refine ⟨_, fromIClipboard_of_lt hplain (by decide) (by decide) extra, ?_⟩
  change toIClipboard doToIClipboard (encoded [] ++ extra) = some []
  unfold toIClipboard
  dsimp only
  have hmod : (encoded [] ++ extra).length % 2 ^ 32 < 2 ^ 32 := Nat.mod_lt _ (by decide)
  generalize (encoded [] ++ extra).length % 2 ^ 32 = srcSize at hmod
  split_ifs with hsmall
  · rfl
  · have hcut : (encoded [] ++ extra).take srcSize = encoded [] ++ extra.take (srcSize - 2) := by
      rw [List.take_append, List.take_of_length_le (by omega), hlen]
    have hsize : (encoded [] ++ extra.take (srcSize - 2)).length < 2 ^ 32 := by
      rw [← hcut]
      exact (List.length_take_le _ _).trans_lt hmod
    rw [hcut, doToIClipboard_encoded hplain hsize]
    rfl

/-- **Text that is put on the clipboard of Windows** loses no ends of lines on the way, and comes
back if it is empty or fits; text of fewer than `2 ^ 32` bytes does not come back otherwise. -/
theorem keeps_text (slack : ℕ) (src : Bytes) (h : ∀ c ∈ cs, Plain c) :
    (src.length < 2 ^ 31 → convertLinefeedToUnix (convertLinefeedToWin32 src) = src) ∧
      (cs = [] ∨ Fits slack cs → RoundTrip slack (cs.flatMap String.utf8EncodeChar)) ∧
      ((cs.flatMap String.utf8EncodeChar).length < 2 ^ 32 →
        RoundTrip slack (cs.flatMap String.utf8EncodeChar) → cs = [] ∨ Fits slack cs) := by
  refine ⟨unix_win32, ?_, fun hsize hback => ?_⟩
  · rintro (rfl | hfits)
    · exact roundTrip_nil slack
    · exact roundTrip_of_fits h hfits
  · rcases eq_or_ne cs [] with hnil | hne
    · exact .inl hnil
    · exact .inr (fits_of_roundTrip h hsize hne hback)

/-- Text with stray carriage returns, in a block that is larger by eight bytes. -/
theorem keeps_text_lines :
    RoundTrip 8 (['\r', '\n', '€', '\n', '😀'].flatMap String.utf8EncodeChar) :=
  (keeps_text 8 [] (by unfold Plain; decide)).2.1 (.inr ⟨by decide, by decide⟩)

/-- Text of `2 ^ 31 - 1` letters does not come back. -/
theorem not_keeps_text : ¬∀ cs : List Char, (∀ c ∈ cs, Plain c) →
    RoundTrip 0 (cs.flatMap String.utf8EncodeChar) := by
  intro h
  have hplain : ∀ c ∈ List.replicate (2 ^ 31 - 1) 'a', Plain c := by
    intro c hc
    rw [List.eq_of_mem_replicate hc]
    exact ⟨by decide, by decide, by decide, by decide⟩
  have hsize : ((List.replicate (2 ^ 31 - 1) 'a').flatMap String.utf8EncodeChar).length <
      2 ^ 32 := by
    rw [length_flatMap_replicate]
    decide
  have hne : List.replicate (2 ^ 31 - 1) 'a' ≠ [] := fun hnil =>
    absurd (List.replicate_eq_nil_iff _ |>.1 hnil) (by decide)
  have hroom := block_of_roundTrip hplain hsize hne (h _ hplain)
  have hone : (encodeUTF16 'a').length = 1 := rfl
  rw [length_flatMap_replicate, hone] at hroom
  omega

end UTF16Converter

end InputLeap
