import InputLeap.Net.Packets

/-!
# Writing messages

`ProtocolUtil::writef` computes the length of a message, writes it into a buffer of that length
and hands it to a stream.  `readf` undoes it, but for a literal percent sign, which is written
and not read.

## Main definitions

* `ProtocolUtil.getLength`, `writefVoid`, `writef` : writing a format.
* `ProtocolUtil.Takes` : the arguments of well-formed fields are within their widths and limits.
* `ProtocolUtil.RoundTrips` : what is written with a format is read back with it.

## Main results

* `writefVoid_formatOf` : the buffer is filled exactly.
* `roundTrips_iff` : the round trip works exactly if the format has no literal percent sign.
-/

namespace InputLeap

namespace ProtocolUtil

/-- The length that a specifier of a format adds, and the arguments that it leaves; `none` is a
failed assertion. -/
def lengthOf (len : ℕ) : Char → List Value → Option (ℕ × List Value)
  | 'i', .int _ :: args => if len = 1 ∨ len = 2 ∨ len = 4 then some (len, args) else none
  | 'I', .ints vs :: args =>
    if len = 1 ∨ len = 2 ∨ len = 4 then some (4 + len * vs.length, args) else none
  | 's', .string s :: args => if len = 0 then some (4 + s.length, args) else none
  | 'S', .string s :: args => if len = 0 then some (4 + s.length, args) else none
  | '%', args => if len = 0 then some (1, args) else none
  | _, _ => none

/-- The length of a message before it is cut to 32 bits; `some len` is the length read so far
after a `%`. -/
def getLength : Option ℕ → List Char → List Value → Option ℕ
  | none, [], _ => some 0
  | some _, [], _ => none
  | none, c :: fmt, args =>
    if c = '%' then getLength (some 0) fmt args else (getLength none fmt args).map (1 + ·)
  | some len, c :: fmt, args =>
    if c.isDigit then getLength (some (10 * len + (c.toNat - 48))) fmt args
    else (lengthOf len c args).bind fun r => (getLength none fmt r.2).map (r.1 + ·)

/-- The bytes that a specifier writes, and the arguments that it leaves. -/
def bytesOf (len : ℕ) : Char → List Value → Option (Bytes × List Value)
  | 'i', .int v :: args =>
    if len = 1 ∨ len = 2 ∨ len = 4 then some (BigEndian.toBytes len v, args) else none
  | 'I', .ints vs :: args =>
    if len = 1 ∨ len = 2 ∨ len = 4 then
      some (BigEndian.toBytes 4 vs.length ++ vs.flatMap (BigEndian.toBytes len), args)
    else none
  | 's', .string s :: args =>
    if len = 0 then some (BigEndian.toBytes 4 s.length ++ s, args) else none
  | 'S', .string s :: args =>
    if len = 0 then some (BigEndian.toBytes 4 s.length ++ s, args) else none
  | '%', args => if len = 0 then some ([UInt8.ofNat '%'.toNat], args) else none
  | _, _ => none

/-- The bytes that are written into the buffer. -/
def writefVoid : Option ℕ → List Char → List Value → Option Bytes
  | none, [], _ => some []
  | some _, [], _ => none
  | none, c :: fmt, args =>
    if c = '%' then writefVoid (some 0) fmt args
    else (writefVoid none fmt args).map (UInt8.ofNat c.toNat :: ·)
  | some len, c :: fmt, args =>
    if c.isDigit then writefVoid (some (10 * len + (c.toNat - 48))) fmt args
    else (bytesOf len c args).bind fun r => (writefVoid none fmt r.2).map (r.1 ++ ·)

/-- The bytes that are handed to the stream.  `none` is a failed assertion, or bytes that do not
fill the buffer exactly. -/
def writef (fmt : String) (args : List Value) : Option Bytes :=
  (getLength none fmt.toList args).bind fun n =>
    let size := n % 2 ^ 32
    if size = 0 then some []
    else
      (writefVoid none fmt.toList args).bind fun bytes =>
        if bytes.length = size then some bytes else none

/-! ### Formats -/

/-- A field as it is written in a format. -/
def Field.text : Field → List Char
  | .int len => ['%', Nat.digitChar len, 'i']
  | .ints len => ['%', Nat.digitChar len, 'I']
  | .string => ['%', 's']
  | .percent => ['%', '%']
  | .char c => [c]

/-- The format with the fields. -/
def formatOf (fs : List Field) : String := String.ofList (fs.flatMap Field.text)

/-- The fields are well formed, and the arguments are within their widths and the limits of the
protocol. -/
inductive Takes : List Field → List Value → Prop
  | nil : Takes [] []
  | int {len v : ℕ} {fs : List Field} {vs : List Value} (hlen : len = 1 ∨ len = 2 ∨ len = 4)
      (hv : v < 256 ^ len) (h : Takes fs vs) : Takes (.int len :: fs) (.int v :: vs)
  | ints {len : ℕ} {xs : List ℕ} {fs : List Field} {vs : List Value}
      (hlen : len = 1 ∨ len = 2 ∨ len = 4) (hxs : ∀ x ∈ xs, x < 256 ^ len)
      (hmax : xs.length ≤ maxListLength) (h : Takes fs vs) :
      Takes (.ints len :: fs) (.ints xs :: vs)
  | string {s : Bytes} {fs : List Field} {vs : List Value} (hmax : s.length ≤ maxStringLength)
      (h : Takes fs vs) : Takes (.string :: fs) (.string s :: vs)
  | percent {fs : List Field} {vs : List Value} (h : Takes fs vs) : Takes (.percent :: fs) vs
  | char {c : Char} {fs : List Field} {vs : List Value} (hc : c ≠ '%') (h : Takes fs vs) :
      Takes (.char c :: fs) vs

/-- What is written with the format is read back with it, however the stream cuts it into
pieces, and nothing that comes behind it is touched. -/
def RoundTrips (fmt : String) (vs : List Value) : Prop :=
  ∃ bytes, writef fmt vs = some bytes ∧
    ∀ (ps : List Bytes) (rest : Bytes), Packets.Filled ps → ps.flatten = bytes ++ rest →
      (readf (read Packets.read) (fields fmt) ps).1 = .ok (some vs) ∧
        (readf (read Packets.read) (fields fmt) ps).2.flatten = rest

variable {fs : List Field} {vs : List Value} {bytes bytes' rest : Bytes}

/-! ### Scanning -/

/-- The reader finds the fields of a format. -/
theorem scan_formatOf (h : Takes fs vs) : scan none (fs.flatMap Field.text) = fs := by
  induction h with
  | nil => rfl
  | int hlen _ _ ih =>
    obtain rfl | rfl | rfl := hlen
    all_goals
      rw [List.flatMap_cons, Field.text]
      exact congrArg _ ih
  | ints hlen _ _ _ ih =>
    obtain rfl | rfl | rfl := hlen
    all_goals
      rw [List.flatMap_cons, Field.text]
      exact congrArg _ ih
  | string _ _ ih => exact congrArg _ ih
  | percent _ ih => exact congrArg _ ih
  | char hc _ ih =>
    rw [List.flatMap_cons, Field.text, List.singleton_append, scan, if_neg hc, ih]

theorem fields_formatOf (h : Takes fs vs) : fields (formatOf fs) = fs := by
  rw [fields, formatOf, String.toList_ofList, scan_formatOf h]

/-- The bytes of the fields. -/
def encode : List Field → List Value → Bytes
  | .int len :: fs, .int v :: vs => BigEndian.toBytes len v ++ encode fs vs
  | .ints len :: fs, .ints xs :: vs =>
    BigEndian.toBytes 4 xs.length ++ xs.flatMap (BigEndian.toBytes len) ++ encode fs vs
  | .string :: fs, .string s :: vs => BigEndian.toBytes 4 s.length ++ s ++ encode fs vs
  | .percent :: fs, vs => UInt8.ofNat '%'.toNat :: encode fs vs
  | .char c :: fs, vs => UInt8.ofNat c.toNat :: encode fs vs
  | _, _ => []

/-- The writer finds the fields of a format. -/
theorem writefVoid_formatOf (h : Takes fs vs) :
    writefVoid none (fs.flatMap Field.text) vs = some (encode fs vs) := by
  induction h with
  | nil => rfl
  | @int len v fs vs hlen _ _ ih =>
    have hstep : writefVoid none ((Field.int len).text ++ fs.flatMap Field.text) (.int v :: vs) =
        (writefVoid none (fs.flatMap Field.text) vs).map (BigEndian.toBytes len v ++ ·) := by
      obtain rfl | rfl | rfl := hlen <;> rfl
    rw [List.flatMap_cons, hstep, ih]
    rfl
  | @ints len xs fs vs hlen _ _ _ ih =>
    have hstep : writefVoid none ((Field.ints len).text ++ fs.flatMap Field.text) (.ints xs :: vs) =
        (writefVoid none (fs.flatMap Field.text) vs).map
          (BigEndian.toBytes 4 xs.length ++ xs.flatMap (BigEndian.toBytes len) ++ ·) := by
      obtain rfl | rfl | rfl := hlen <;> rfl
    rw [List.flatMap_cons, hstep, ih]
    rfl
  | @string s fs vs _ _ ih =>
    have hstep : writefVoid none (Field.string.text ++ fs.flatMap Field.text) (.string s :: vs) =
        (writefVoid none (fs.flatMap Field.text) vs).map (BigEndian.toBytes 4 s.length ++ s ++ ·) :=
      rfl
    rw [List.flatMap_cons, hstep, ih]
    rfl
  | @percent fs vs _ ih =>
    have hstep : writefVoid none (Field.percent.text ++ fs.flatMap Field.text) vs =
        (writefVoid none (fs.flatMap Field.text) vs).map ([UInt8.ofNat '%'.toNat] ++ ·) := rfl
    rw [List.flatMap_cons, hstep, ih]
    rfl
  | @char c fs vs hc _ ih =>
    rw [List.flatMap_cons, Field.text, List.singleton_append, writefVoid, if_neg hc, ih]
    rfl

theorem length_flatMap_toBytes (len : ℕ) (xs : List ℕ) :
    (xs.flatMap (BigEndian.toBytes len)).length = len * xs.length := by
  induction xs with
  | nil => rfl
  | cons x xs ih =>
    rw [List.flatMap_cons, List.length_append, BigEndian.length_toBytes, ih, List.length_cons,
      Nat.mul_succ, Nat.add_comm]

/-- The length is computed from the same fields. -/
theorem getLength_formatOf (h : Takes fs vs) :
    getLength none (fs.flatMap Field.text) vs = some (encode fs vs).length := by
  induction h with
  | nil => rfl
  | @int len v fs vs hlen _ _ ih =>
    have hstep : getLength none ((Field.int len).text ++ fs.flatMap Field.text) (.int v :: vs) =
        (getLength none (fs.flatMap Field.text) vs).map (len + ·) := by
      obtain rfl | rfl | rfl := hlen <;> rfl
    rw [List.flatMap_cons, hstep, ih, encode, List.length_append, BigEndian.length_toBytes]
    rfl
  | @ints len xs fs vs hlen _ _ _ ih =>
    have hstep : getLength none ((Field.ints len).text ++ fs.flatMap Field.text) (.ints xs :: vs) =
        (getLength none (fs.flatMap Field.text) vs).map (4 + len * xs.length + ·) := by
      obtain rfl | rfl | rfl := hlen <;> rfl
    rw [List.flatMap_cons, hstep, ih, encode, List.length_append, List.length_append,
      BigEndian.length_toBytes, length_flatMap_toBytes]
    rfl
  | @string s fs vs _ _ ih =>
    have hstep : getLength none (Field.string.text ++ fs.flatMap Field.text) (.string s :: vs) =
        (getLength none (fs.flatMap Field.text) vs).map (4 + s.length + ·) := rfl
    rw [List.flatMap_cons, hstep, ih, encode, List.length_append, List.length_append,
      BigEndian.length_toBytes]
    rfl
  | @percent fs vs _ ih =>
    have hstep : getLength none (Field.percent.text ++ fs.flatMap Field.text) vs =
        (getLength none (fs.flatMap Field.text) vs).map (1 + ·) := rfl
    rw [List.flatMap_cons, hstep, ih, encode, List.length_cons, Nat.add_comm]
    rfl
  | @char c fs vs hc _ ih =>
    rw [List.flatMap_cons, Field.text, List.singleton_append, getLength, if_neg hc, ih, encode,
      List.length_cons, Nat.add_comm]
    rfl

/-- The buffer is filled exactly. -/
theorem writef_formatOf (h : Takes fs vs) (hsize : (encode fs vs).length < 2 ^ 32) :
    writef (formatOf fs) vs = some (encode fs vs) := by
  rw [writef, formatOf, String.toList_ofList, getLength_formatOf h, Option.bind_some]
  simp only [Nat.mod_eq_of_lt hsize, writefVoid_formatOf h, Option.bind_some, if_true]
  split_ifs with hnil
  · rw [List.length_eq_zero_iff.1 hnil]
  · rfl

/-! ### Reading back -/

theorem take_append (data rest : Bytes) :
    Reading.take data.length (data ++ rest) = (.ok data, rest) := by
  rw [Reading.take, if_neg (by rw [List.length_append]; omega), List.take_left, List.drop_left]

theorem readNumber_append {len v : ℕ} (hv : v < 256 ^ len) (rest : Bytes) :
    readNumber Reading.take len (BigEndian.toBytes len v ++ rest) = (.ok v, rest) := by
  have htake := take_append (BigEndian.toBytes len v) rest
  rw [BigEndian.length_toBytes] at htake
  rw [readNumber, Reading.bind_ok htake, BigEndian.ofBytes_toBytes hv]
  rfl

theorem readNumbers_append {len : ℕ} {xs : List ℕ} (hxs : ∀ x ∈ xs, x < 256 ^ len)
    (rest : Bytes) : readNumbers Reading.take len xs.length
      (xs.flatMap (BigEndian.toBytes len) ++ rest) = (.ok xs, rest) := by
  induction xs with
  | nil => rfl
  | cons x xs ih =>
    obtain ⟨hx, hxs⟩ := List.forall_mem_cons.1 hxs
    have hfirst := readNumber_append hx (xs.flatMap (BigEndian.toBytes len) ++ rest)
    rw [List.length_cons, readNumbers, List.flatMap_cons, List.append_assoc,
      Reading.bind_ok hfirst, Reading.bind_ok (ih hxs)]
    rfl

/-- A length that is within a limit fits into four bytes. -/
theorem lt_of_le_maxListLength {n : ℕ} (h : n ≤ maxListLength) : n < 256 ^ 4 := by
  unfold maxListLength at h
  omega

/-- Fields without a literal percent sign are read back. -/
theorem vreadf_encode (h : Takes fs vs) (hpercent : Field.percent ∉ fs) (rest : Bytes) :
    vreadf Reading.take fs (encode fs vs ++ rest) = (.ok vs, rest) := by
  induction h with
  | nil => rfl
  | @int len v fs vs _ hv _ ih =>
    have hrest := ih fun hin => hpercent (List.mem_cons_of_mem _ hin)
    have hfield : readField Reading.take (.int len)
        (BigEndian.toBytes len v ++ (encode fs vs ++ rest)) =
          (.ok [.int v], encode fs vs ++ rest) := by
      rw [readField, Reading.bind_ok (readNumber_append hv _)]
      rfl
    rw [encode, List.append_assoc, vreadf, Reading.bind_ok hfield, Reading.bind_ok hrest]
    rfl
  | @ints len xs fs vs _ hxs hmax _ ih =>
    have hrest := ih fun hin => hpercent (List.mem_cons_of_mem _ hin)
    have hfield : readField Reading.take (.ints len) (BigEndian.toBytes 4 xs.length ++
        (xs.flatMap (BigEndian.toBytes len) ++ (encode fs vs ++ rest))) =
          (.ok [.ints xs], encode fs vs ++ rest) := by
      rw [readField, Reading.bind_ok (readNumber_append (lt_of_le_maxListLength hmax) _),
        if_neg (Nat.not_lt.2 hmax), Reading.bind_ok (readNumbers_append hxs _)]
      rfl
    rw [encode, List.append_assoc, List.append_assoc, vreadf, Reading.bind_ok hfield,
      Reading.bind_ok hrest]
    rfl
  | @string s fs vs hmax _ ih =>
    have hrest := ih fun hin => hpercent (List.mem_cons_of_mem _ hin)
    have hfield : readField Reading.take .string
        (BigEndian.toBytes 4 s.length ++ (s ++ (encode fs vs ++ rest))) =
          (.ok [.string s], encode fs vs ++ rest) := by
      rw [readField, Reading.bind_ok (readNumber_append (lt_of_le_maxListLength hmax) _),
        if_neg (Nat.not_lt.2 hmax), Reading.bind_ok (take_append s _)]
      rfl
    rw [encode, List.append_assoc, List.append_assoc, vreadf, Reading.bind_ok hfield,
      Reading.bind_ok hrest]
    rfl
  | percent => exact absurd List.mem_cons_self hpercent
  | @char c fs vs _ _ ih =>
    have hrest := ih fun hin => hpercent (List.mem_cons_of_mem _ hin)
    have hfield : readField Reading.take (.char c)
        (UInt8.ofNat c.toNat :: (encode fs vs ++ rest)) = (.ok [], encode fs vs ++ rest) := by
      have htake : Reading.take 1 (UInt8.ofNat c.toNat :: (encode fs vs ++ rest)) =
          (.ok [UInt8.ofNat c.toNat], encode fs vs ++ rest) :=
        take_append [UInt8.ofNat c.toNat] (encode fs vs ++ rest)
      rw [readField, Reading.bind_ok htake, if_pos rfl]
      rfl
    rw [encode, List.cons_append, vreadf, Reading.bind_ok hfield, Reading.bind_ok hrest]
    rfl

/-! ### What reading consumes -/

theorem length_take {n : ℕ} {data : Bytes} (h : Reading.take n bytes = (.ok data, rest)) :
    bytes.length = n + rest.length ∧ data.length = n := by
  unfold Reading.take at h
  split_ifs at h with hshort
  · cases h
  · obtain ⟨hdata, rfl⟩ := Prod.mk.inj h
    obtain rfl := Except.ok.inj hdata
    rw [List.length_drop, List.length_take]
    omega

theorem bind_eq_ok {α β : Type} {m : Reading Bytes α} {f : α → Reading Bytes β} {b : β}
    (h : Reading.bind m f bytes = (.ok b, rest)) :
    ∃ a s, m bytes = (.ok a, s) ∧ f a s = (.ok b, rest) := by
  rcases hm : m bytes with ⟨e | a, s⟩
  · rw [Reading.bind_error hm] at h
    cases h
  · rw [Reading.bind_ok hm] at h
    exact ⟨a, s, rfl, h⟩

theorem length_readNumber {len v : ℕ}
    (h : readNumber Reading.take len bytes = (.ok v, rest)) :
    bytes.length = len + rest.length := by
  obtain ⟨data, s, htake, hv⟩ := bind_eq_ok h
  obtain ⟨-, rfl⟩ := Prod.mk.inj hv
  exact (length_take htake).1

theorem length_readNumbers {len n : ℕ} {xs : List ℕ}
    (h : readNumbers Reading.take len n bytes = (.ok xs, rest)) :
    bytes.length = len * xs.length + rest.length := by
  induction n generalizing bytes xs with
  | zero =>
    obtain ⟨hxs, rfl⟩ := Prod.mk.inj h
    obtain rfl := Except.ok.inj hxs
    rw [List.length_nil, Nat.mul_zero, Nat.zero_add]
  | succ n ih =>
    obtain ⟨v, s, hfirst, h⟩ := bind_eq_ok h
    obtain ⟨vs, s', hmore, h⟩ := bind_eq_ok h
    obtain ⟨hxs, rfl⟩ := Prod.mk.inj h
    obtain rfl := Except.ok.inj hxs
    rw [length_readNumber hfirst, ih hmore, List.length_cons, Nat.mul_succ]
    omega

/-- What is read for a field, and how many bytes that takes. -/
theorem readField_eq_ok {f : Field} {v : List Value}
    (h : readField Reading.take f bytes = (.ok v, rest)) :
    match f with
    | .int len => (∃ n, v = [.int n]) ∧ bytes.length = len + rest.length
    | .ints len => ∃ xs, v = [.ints xs] ∧ bytes.length = 4 + len * xs.length + rest.length
    | .string => ∃ s, v = [.string s] ∧ bytes.length = 4 + s.length + rest.length
    | .percent => v = [] ∧ bytes.length = rest.length
    | .char _ => v = [] ∧ bytes.length = 1 + rest.length := by
  cases f with
  | int len =>
    obtain ⟨n, s, hn, h⟩ := bind_eq_ok h
    obtain ⟨hv, rfl⟩ := Prod.mk.inj h
    exact ⟨⟨n, (Except.ok.inj hv).symm⟩, length_readNumber hn⟩
  | ints len =>
    obtain ⟨n, s, hn, h⟩ := bind_eq_ok h
    split_ifs at h
    · cases h
    · obtain ⟨xs, s', hxs, h⟩ := bind_eq_ok h
      obtain ⟨hv, rfl⟩ := Prod.mk.inj h
      refine ⟨xs, (Except.ok.inj hv).symm, ?_⟩
      rw [length_readNumber hn, length_readNumbers hxs, Nat.add_assoc]
  | string =>
    obtain ⟨n, s, hn, h⟩ := bind_eq_ok h
    split_ifs at h
    · cases h
    · obtain ⟨data, s', hdata, h⟩ := bind_eq_ok h
      obtain ⟨hv, rfl⟩ := Prod.mk.inj h
      obtain ⟨hlength, hn'⟩ := length_take hdata
      refine ⟨data, (Except.ok.inj hv).symm, ?_⟩
      rw [length_readNumber hn, hlength, hn', Nat.add_assoc]
  | percent =>
    obtain ⟨hv, rfl⟩ := Prod.mk.inj h
    exact ⟨(Except.ok.inj hv).symm, rfl⟩
  | char c =>
    obtain ⟨data, s, htake, h⟩ := bind_eq_ok h
    split_ifs at h
    · obtain ⟨hv, rfl⟩ := Prod.mk.inj h
      exact ⟨(Except.ok.inj hv).symm, (length_take htake).1⟩
    · cases h

/-- Whatever bytes the arguments are read from, a byte for each literal percent sign is left. -/
theorem length_vreadf (h : Takes fs vs) (hread : vreadf Reading.take fs bytes = (.ok vs, rest)) :
    bytes.length + fs.count .percent = (encode fs vs).length + rest.length := by
  induction h generalizing bytes with
  | nil =>
    obtain ⟨-, rfl⟩ := Prod.mk.inj hread
    rw [List.count_nil, Nat.add_zero]
    exact (Nat.zero_add _).symm
  | @int len v fs vs _ _ _ ih =>
    obtain ⟨v', s, hfield, hread⟩ := bind_eq_ok hread
    obtain ⟨vs', s', hmore, hread⟩ := bind_eq_ok hread
    obtain ⟨hvs, rfl⟩ := Prod.mk.inj hread
    obtain ⟨⟨n, rfl⟩, hlength⟩ := readField_eq_ok hfield
    obtain ⟨-, rfl⟩ := List.cons.inj (Except.ok.inj hvs)
    have hrest := ih hmore
    rw [List.count_cons_of_ne (by simp), encode, List.length_append, BigEndian.length_toBytes]
    omega
  | @ints len xs fs vs _ _ _ _ ih =>
    obtain ⟨v', s, hfield, hread⟩ := bind_eq_ok hread
    obtain ⟨vs', s', hmore, hread⟩ := bind_eq_ok hread
    obtain ⟨hvs, rfl⟩ := Prod.mk.inj hread
    obtain ⟨xs', rfl, hlength⟩ := readField_eq_ok hfield
    obtain ⟨hxs, rfl⟩ := List.cons.inj (Except.ok.inj hvs)
    obtain rfl := Value.ints.inj hxs
    have hrest := ih hmore
    rw [List.count_cons_of_ne (by simp), encode, List.length_append, List.length_append,
      BigEndian.length_toBytes, length_flatMap_toBytes]
    omega
  | @string data fs vs _ _ ih =>
    obtain ⟨v', s, hfield, hread⟩ := bind_eq_ok hread
    obtain ⟨vs', s', hmore, hread⟩ := bind_eq_ok hread
    obtain ⟨hvs, rfl⟩ := Prod.mk.inj hread
    obtain ⟨data', rfl, hlength⟩ := readField_eq_ok hfield
    obtain ⟨hdata, rfl⟩ := List.cons.inj (Except.ok.inj hvs)
    obtain rfl := Value.string.inj hdata
    have hrest := ih hmore
    rw [List.count_cons_of_ne (by simp), encode, List.length_append, List.length_append,
      BigEndian.length_toBytes]
    omega
  | @percent fs vs _ ih =>
    obtain ⟨v', s, hfield, hread⟩ := bind_eq_ok hread
    obtain ⟨vs', s', hmore, hread⟩ := bind_eq_ok hread
    obtain ⟨hvs, rfl⟩ := Prod.mk.inj hread
    obtain ⟨rfl, hlength⟩ := readField_eq_ok hfield
    obtain rfl := Except.ok.inj hvs
    have hrest := ih hmore
    rw [List.count_cons_self, encode, List.length_cons]
    omega
  | @char c fs vs _ _ ih =>
    obtain ⟨v', s, hfield, hread⟩ := bind_eq_ok hread
    obtain ⟨vs', s', hmore, hread⟩ := bind_eq_ok hread
    obtain ⟨hvs, rfl⟩ := Prod.mk.inj hread
    obtain ⟨rfl, hlength⟩ := readField_eq_ok hfield
    obtain rfl := Except.ok.inj hvs
    have hrest := ih hmore
    rw [List.count_cons_of_ne (by simp), encode, List.length_cons]
    omega

/-- Reading from packets is reading from their bytes. -/
theorem readf_packets {ps : List Bytes} (h : Packets.Filled ps) (fs : List Field) :
    (readf (read Packets.read) fs ps).1 = (readf Reading.take fs ps.flatten).1 ∧
      (readf (read Packets.read) fs ps).2.flatten = (readf Reading.take fs ps.flatten).2 := by
  obtain ⟨hval, k, -, hleft, hrest⟩ :=
    sim_readf (Packets.sim_read h) fs ps ps.flatten (Packets.Left.refl h)
  refine ⟨hval, ?_⟩
  rw [hleft, hrest, Packets.flatten_drop]

theorem readf_eq_ok : readf Reading.take fs bytes = (.ok (some vs), rest) ↔
    vreadf Reading.take fs bytes = (.ok vs, rest) := by
  unfold readf
  rcases vreadf Reading.take fs bytes with ⟨e | vs', s⟩
  · cases e <;> simp
  · simp

/-- **`readf` undoes `writef`** exactly for the formats without a literal percent sign. -/
theorem roundTrips_iff (h : Takes fs vs) (hsize : (encode fs vs).length < 2 ^ 32) :
    RoundTrips (formatOf fs) vs ↔ .percent ∉ fs := by
  unfold RoundTrips
  rw [fields_formatOf h, writef_formatOf h hsize]
  constructor
  · rintro ⟨bytes, hbytes, hread⟩ hin
    obtain rfl := Option.some.inj hbytes
    have hfilled : Packets.Filled [encode fs vs ++ [0]] :=
      fun p hp => by simp [List.mem_singleton.1 hp]
    obtain ⟨hval, hrest⟩ := hread _ [0] hfilled (List.append_nil _)
    obtain ⟨hval', hrest'⟩ := readf_packets hfilled fs
    rw [hval'] at hval
    rw [hrest'] at hrest
    -- A byte that was not read is left for each literal percent sign.
    have hlength := length_vreadf h (readf_eq_ok.1 (Prod.ext hval hrest))
    have hcount := List.count_pos_iff.2 hin
    simp only [List.flatten_cons, List.flatten_nil, List.append_nil, List.length_append,
      List.length_singleton] at hlength
    omega
  · intro hpercent
    refine ⟨_, rfl, fun ps rest hfilled hps => ?_⟩
    obtain ⟨hval, hrest⟩ := readf_packets hfilled fs
    have hread := readf_eq_ok.2 (vreadf_encode h hpercent rest)
    rw [hps, hread] at hval hrest
    exact ⟨hval, hrest⟩

/-- The fields of the reply to a hello: a version and a name. -/
def helloBack : List Field :=
  ['B', 'a', 'r', 'r', 'i', 'e', 'r'].map .char ++ [.int 2, .int 2, .string]

/-- The reply of the client `p` that speaks version 1.7. -/
theorem roundTrips_iff_helloBack : formatOf helloBack = "Barrier%2i%2i%s" ∧
    (RoundTrips (formatOf helloBack) [.int 1, .int 7, .string [112]] ↔
      Field.percent ∉ helloBack) := by
  refine ⟨by decide, roundTrips_iff ?_ (by decide)⟩
  iterate 7 refine Takes.char (by decide) ?_
  exact .int (.inr (.inl rfl)) (by decide) (.int (.inr (.inl rfl)) (by decide)
    (.string (by decide) .nil))

/-- The format `%%` writes a percent sign, but reading with it leaves that sign in the stream. -/
theorem not_roundTrips : ¬∀ fs vs, Takes fs vs → (encode fs vs).length < 2 ^ 32 →
    RoundTrips (formatOf fs) vs := by
  intro h
  obtain ⟨bytes, hbytes, hread⟩ := h [.percent] [] (.percent .nil) (by decide)
  have hwritten : writef (formatOf [.percent]) [] = some [UInt8.ofNat '%'.toNat] := by decide
  obtain rfl := Option.some.inj (hwritten.symm.trans hbytes)
  have hfilled : Packets.Filled [[UInt8.ofNat '%'.toNat]] :=
    fun p hp => by simp [List.mem_singleton.1 hp]
  obtain ⟨-, hrest⟩ := hread _ [] hfilled rfl
  revert hrest
  decide

end ProtocolUtil

end InputLeap
