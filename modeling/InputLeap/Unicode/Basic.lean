import InputLeap.Net.BigEndian

/-!
# Conversions between encodings

`Unicode`: UTF-8 is read one character at a time, and text in 16-bit and 32-bit units is read unit
by unit, in the order of bytes of the machine or in the other one after a byte-order mark.

A read past the end of the data is `none` throughout.

## Main definitions

* `Unicode.fromUTF8`, `Unicode.fromUTF8Turns` : the next character, and the loop over all.
* `Unicode.UTF8ToUTF16`, `Unicode.UTF16ToUTF8` : the conversions of strings.
* `Unicode.doUCS2ToUTF8`, `Unicode.doUCS4ToUTF8`, `Unicode.doUTF16ToUTF8`,
  `Unicode.doUTF32ToUTF8` : the conversions of units.
-/

namespace InputLeap

/-- The order in which a machine stores the bytes of a number. -/
inductive ByteOrder
  | little
  | big
  deriving DecidableEq, Repr

namespace ByteOrder

/-- The number in the storage of an unsigned integer. -/
def ofBytes : ByteOrder → Bytes → ℕ
  | little, n8 => BigEndian.ofBytes n8.reverse
  | big, n8 => BigEndian.ofBytes n8

/-- The storage of an unsigned integer of `width` bytes. -/
def toBytes : ByteOrder → ℕ → ℕ → Bytes
  | little, width, v => (BigEndian.toBytes width v).reverse
  | big, width, v => BigEndian.toBytes width v

end ByteOrder

namespace Unicode

/-- What stands for a malformed character (`s_invalid`). -/
def invalid : ℕ := 0x0000ffff

/-- What a character that cannot be converted becomes (`s_replacement`). -/
def replacement : ℕ := 0x0000fffd

/-! ### Reading UTF-8 -/

/-- The length of the encoding that begins with a byte; `none` if none does. -/
def sequenceLength (lead : ℕ) : Option ℕ :=
  if lead < 0x80 then some 1
  else if lead < 0xc0 then none
  else if lead < 0xe0 then some 2
  else if lead < 0xf0 then some 3
  else if lead < 0xf8 then some 4
  else if lead < 0xfc then some 5
  else if lead < 0xfe then some 6
  else none

/-- The byte has the pattern `10xxxxxx`. -/
def isContinuation (b : UInt8) : Bool := b.toNat &&& 0xc0 == 0x80

/-- The low six bits of a byte behind the first, shifted. -/
def bitsAt (data : Bytes) (i shift : ℕ) : Option ℕ :=
  data[i]?.map fun b => (b.toNat &&& 0x3f) <<< shift

/-- The bits of the first byte, shifted. -/
def leadBits (data : Bytes) (mask shift : ℕ) : Option ℕ :=
  data[0]?.map fun b => (b.toNat &&& mask) <<< shift

/-- The character in the first `size` bytes. -/
def extract (data : Bytes) (size : ℕ) : Option ℕ :=
  match size with
  | 1 => data[0]?.map UInt8.toNat
  | 2 => return (← leadBits data 0x1f 6) ||| (← bitsAt data 1 0)
  | 3 => return (← leadBits data 0x0f 12) ||| (← bitsAt data 1 6) ||| (← bitsAt data 2 0)
  | 4 => return (← leadBits data 0x07 18) ||| (← bitsAt data 1 12) ||| (← bitsAt data 2 6) |||
      (← bitsAt data 3 0)
  | 5 => return (← leadBits data 0x03 24) ||| (← bitsAt data 1 18) ||| (← bitsAt data 2 12) |||
      (← bitsAt data 3 6) ||| (← bitsAt data 4 0)
  | 6 => return (← leadBits data 0x01 30) ||| (← bitsAt data 1 24) ||| (← bitsAt data 2 18) |||
      (← bitsAt data 3 12) ||| (← bitsAt data 4 6) ||| (← bitsAt data 5 0)
  | _ => some invalid

/-- Looks at the bytes from the given one down to the second, and cuts the size at one that is no
continuation. -/
def checkBytes (data : Bytes) : ℕ → ℕ → Option ℕ
  | 0, size => some size
  | i + 1, size => do
    let b ← data[i + 1]?
    checkBytes data i (if isContinuation b then size else i + 1)

/-- The smallest character that needs an encoding of this size (`s_minChar`). -/
def minChar (size : ℕ) : ℕ :=
  [0, 0x00000000, 0x00000080, 0x00000800, 0x00010000, 0x00200000, 0x04000000].getD size 0

/-- The next character of the data and the number of bytes behind which it goes on. -/
def fromUTF8 (data : Bytes) : Option (ℕ × ℕ) :=
  match data with
  | [] => none
  | lead :: _ =>
    match sequenceLength lead.toNat with
    | none => some (invalid, 1)
    | some size =>
      -- make sure we have enough data
      if data.length < size then some (invalid, data.length)
      else do
        let c ← extract data size
        let cut ← checkBytes data (size - 1) size
        -- truncated, overlong, or not in ISO-10646
        let bad : Bool := cut ≠ size || c < minChar size ||
          (0x0000d800 ≤ c && c ≤ 0x0000dfff) || (0x0000fffe ≤ c && c ≤ 0x0000ffff)
        return (if bad then invalid else c, cut)

/-- The turns of the loop over the data: the characters and the bytes that each turn takes. -/
def fromUTF8Turns : ℕ → Bytes → Option (List (ℕ × ℕ))
  | _, [] => some []
  | 0, _ :: _ => none
  | fuel + 1, b :: data => do
    let turn ← fromUTF8 (b :: data)
    let turns ← fromUTF8Turns fuel ((b :: data).drop turn.2)
    return turn :: turns

/-- The loop over a string. -/
def decodeUTF8 (src : Bytes) : Option (List (ℕ × ℕ)) := fromUTF8Turns src.length src

/-! ### Writing UTF-8 -/

/-- A byte behind the first with the low six bits of a number. -/
def continuation (c : ℕ) : UInt8 := UInt8.ofNat ((c &&& 0x3f) + 0x80)

/-- The encoding of a character, and whether that is an error. -/
def toUTF8 (c : ℕ) : Bytes × Bool :=
  let error : Bool := (0x0000d800 ≤ c && c ≤ 0x0000dfff) || 0x80000000 ≤ c
  let c := if error then replacement else c
  let data :=
    if c < 0x00000080 then [UInt8.ofNat c]
    else if c < 0x00000800 then [UInt8.ofNat ((c >>> 6 &&& 0x1f) + 0xc0), continuation c]
    else if c < 0x00010000 then
      [UInt8.ofNat ((c >>> 12 &&& 0x0f) + 0xe0), continuation (c >>> 6), continuation c]
    else if c < 0x00200000 then
      [UInt8.ofNat ((c >>> 18 &&& 0x07) + 0xf0), continuation (c >>> 12), continuation (c >>> 6),
        continuation c]
    else if c < 0x04000000 then
      [UInt8.ofNat ((c >>> 24 &&& 0x03) + 0xf8), continuation (c >>> 18), continuation (c >>> 12),
        continuation (c >>> 6), continuation c]
    else
      [UInt8.ofNat ((c >>> 30 &&& 0x01) + 0xfc), continuation (c >>> 24), continuation (c >>> 18),
        continuation (c >>> 12), continuation (c >>> 6), continuation c]
  (data, error)

/-! ### From UTF-8 to UTF-16 -/

/-- A character in UTF-16, and whether that is an error. -/
def toUTF16 (host : ByteOrder) (c : ℕ) : Bytes × Bool :=
  let error : Bool := c ≠ invalid && 0x00110000 ≤ c
  let c := if c = invalid ∨ error then replacement else c
  if c < 0x00010000 then (host.toBytes 2 c, error)
  else
    let c := c - 0x00010000
    (host.toBytes 2 ((c >>> 10) + 0xd800) ++ host.toBytes 2 ((c &&& 0x03ff) + 0xdc00), error)

/-- A string in UTF-16, and whether some character is an error. -/
def UTF8ToUTF16 (host : ByteOrder) (src : Bytes) : Option (Bytes × Bool) :=
  (decodeUTF8 src).map fun turns =>
    (turns.flatMap fun turn => (toUTF16 host turn.1).1,
      turns.any fun turn => (toUTF16 host turn.1).2)

/-! ### From units to UTF-8 -/

/-- A unit of `width` bytes (`decode16`, `decode32`). -/
def decode (host : ByteOrder) (width : ℕ) (data : Bytes) (byteSwapped : Bool) : Option ℕ :=
  if data.length < width then none
  else
    some (host.ofBytes (if byteSwapped then (data.take width).reverse else data.take width))

/-- Skips a byte-order mark.  The result is what is left, and whether its units are swapped. -/
def skipMark (host : ByteOrder) (width : ℕ) (data : Bytes) : ℕ → Option (Bytes × ℕ × Bool)
  | 0 => some (data, 0, false)
  | n + 1 => do
    let first ← decode host width data false
    if first = 0x0000feff then return (data.drop width, n, false)
    else if first = 0x0000fffe then return (data.drop width, n, true)
    else return (data, n + 1, false)

/-- What a turn of a loop over units does: the character that it adds, the units that it takes, and
whether it reports an error. -/
structure Turn where
  char : ℕ
  size : ℕ := 1
  error : Bool := false
  deriving DecidableEq, Repr

/-- The text that the turns of a loop add, and whether there was an error. -/
def Turn.text (turns : List Turn) : Bytes × Bool :=
  (turns.flatMap fun turn => (toUTF8 turn.char).1,
    turns.any fun turn => turn.error || (toUTF8 turn.char).2)

/-- The loop of a routine that converts each unit by itself. -/
def unitTurns (host : ByteOrder) (width : ℕ) (convert : ℕ → Turn) (byteSwapped : Bool) :
    Bytes → ℕ → Option (List Turn)
  | _, 0 => some []
  | data, n + 1 => do
    let c ← decode host width data byteSwapped
    let turns ← unitTurns host width convert byteSwapped (data.drop width) n
    return convert c :: turns

/-- A surrogate that does not stand in a pair. -/
def malformed (size : ℕ) : Turn := { char := replacement, size, error := true }

/-- The loop of the routine for UTF-16. -/
def utf16Turns (host : ByteOrder) (byteSwapped : Bool) : Bytes → ℕ → Option (List Turn)
  | _, 0 => some []
  | data, 1 => do
    let c ← decode host 2 data byteSwapped
    if c < 0x0000d800 ∨ 0x0000dfff < c then return [{ char := c }]
    -- missing second word
    else return [malformed 1]
  | data, n + 2 => do
    let c ← decode host 2 data byteSwapped
    if c < 0x0000d800 ∨ 0x0000dfff < c then
      let turns ← utf16Turns host byteSwapped (data.drop 2) (n + 1)
      return { char := c } :: turns
    else if c ≤ 0x0000dbff then
      let c2 ← decode host 2 (data.drop 2) byteSwapped
      let turns ← utf16Turns host byteSwapped (data.drop 4) n
      -- [d800,dbff] not followed by [dc00,dfff]
      if c2 < 0x0000dc00 ∨ 0x0000dfff < c2 then return malformed 2 :: turns
      else
        let c := ((c - 0x0000d800) <<< 10 ||| (c2 - 0x0000dc00)) + 0x00010000
        return { char := c, size := 2 } :: turns
    else
      -- [dc00,dfff] without leading [d800,dbff]
      let turns ← utf16Turns host byteSwapped (data.drop 2) (n + 1)
      return malformed 1 :: turns

/-- The turns of a loop behind the byte-order mark. -/
def markedTurns (host : ByteOrder) (width : ℕ) (loop : Bool → Bytes → ℕ → Option (List Turn))
    (data : Bytes) (n : ℕ) : Option (List Turn) := do
  let (data, n, byteSwapped) ← skipMark host width data n
  loop byteSwapped data n

def doUCS2ToUTF8 (host : ByteOrder) (data : Bytes) (n : ℕ) : Option (Bytes × Bool) :=
  (markedTurns host 2 (unitTurns host 2 fun c => { char := c }) data n).map Turn.text

def doUCS4ToUTF8 (host : ByteOrder) (data : Bytes) (n : ℕ) : Option (Bytes × Bool) :=
  (markedTurns host 4 (unitTurns host 4 fun c => { char := c }) data n).map Turn.text

def doUTF16ToUTF8 (host : ByteOrder) (data : Bytes) (n : ℕ) : Option (Bytes × Bool) :=
  (markedTurns host 2 (utf16Turns host) data n).map Turn.text

def doUTF32ToUTF8 (host : ByteOrder) (data : Bytes) (n : ℕ) : Option (Bytes × Bool) :=
  let convert (c : ℕ) : Turn :=
    if 0x00110000 ≤ c then { char := replacement, error := true } else { char := c }
  (markedTurns host 4 (unitTurns host 4 convert) data n).map Turn.text

/-- A string in UTF-16 as UTF-8.  The size is a number of 32 bits before it is halved. -/
def UTF16ToUTF8 (host : ByteOrder) (src : Bytes) : Option (Bytes × Bool) :=
  doUTF16ToUTF8 host src ((src.length % 2 ^ 32) >>> 1)

end Unicode

end InputLeap
