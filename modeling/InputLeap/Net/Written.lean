import InputLeap.Net.Framing
import InputLeap.Net.Writef

/-!
# Messages written with the format of a handler

The two ends of a connection have the formats in common: what is written with the format of a
handler is what the handler reads.  The arguments are numbers of up to 32 bits; a field keeps
the last bytes of its argument.

## Main definitions

* `ProtocolUtil.trim` : what the fields of a format keep of the arguments.
* `Handler.Plain` : the format is a code and fields.
* `Peer.Says` : a message is written, and the peer reads it from its packet.

## Main results

* `ProtocolUtil.writef_trim` : writing cuts the arguments to the widths of their fields.
* `Peer.says_of_handler` : a message with the format of a handler is read by it.
-/

namespace InputLeap

namespace BigEndian

/-- The bytes of a number are those of what fits in them. -/
theorem toBytes_mod (k v : ℕ) : toBytes k (v % 256 ^ k) = toBytes k v := by
  induction k generalizing v with
  | zero => rfl
  | succ k ih =>
    have hrest : v % 256 ^ (k + 1) / 256 = v / 256 % 256 ^ k := by
      rw [pow_succ, Nat.mul_comm, Nat.mod_mul_right_div_self]
    have hlast : UInt8.ofNat (v % 256 ^ (k + 1)) = UInt8.ofNat v := by
      refine UInt8.toNat_inj.1 ?_
      rw [UInt8.toNat_ofNat', UInt8.toNat_ofNat']
      exact Nat.mod_mod_of_dvd v (Dvd.intro_left (256 ^ k) (pow_succ 256 k).symm)
    rw [toBytes, toBytes, hrest, ih, hlast]

end BigEndian

namespace ProtocolUtil

/-- What the fields keep of the arguments; more arguments than fields are not looked at. -/
def trim : List Field → List Value → List Value
  | .int len :: fs, .int v :: vs => .int (v % 256 ^ len) :: trim fs vs
  | .ints len :: fs, .ints xs :: vs => .ints (xs.map (· % 256 ^ len)) :: trim fs vs
  | .string :: fs, .string s :: vs => .string s :: trim fs vs
  | .percent :: fs, vs => trim fs vs
  | .char _ :: fs, vs => trim fs vs
  | _, _ => []

/-- The arguments are those of the fields, with lists and strings within the limits of the
protocol. -/
inductive Sends : List Field → List Value → Prop
  | nil {vs : List Value} : Sends [] vs
  | int {len v : ℕ} {fs : List Field} {vs : List Value} (hlen : len = 1 ∨ len = 2 ∨ len = 4)
      (h : Sends fs vs) : Sends (.int len :: fs) (.int v :: vs)
  | ints {len : ℕ} {xs : List ℕ} {fs : List Field} {vs : List Value}
      (hlen : len = 1 ∨ len = 2 ∨ len = 4) (hmax : xs.length ≤ maxListLength)
      (h : Sends fs vs) : Sends (.ints len :: fs) (.ints xs :: vs)
  | string {s : Bytes} {fs : List Field} {vs : List Value} (hmax : s.length ≤ maxStringLength)
      (h : Sends fs vs) : Sends (.string :: fs) (.string s :: vs)
  | percent {fs : List Field} {vs : List Value} (h : Sends fs vs) : Sends (.percent :: fs) vs
  | char {c : Char} {fs : List Field} {vs : List Value} (hc : c ≠ '%') (h : Sends fs vs) :
      Sends (.char c :: fs) vs

variable {fs : List Field} {vs : List Value}

/-- What the fields keep fits in them. -/
theorem Sends.takes (h : Sends fs vs) : Takes fs (trim fs vs) := by
  induction h with
  | nil => exact .nil
  | int hlen _ ih => exact .int hlen (Nat.mod_lt _ (Nat.pow_pos (by decide))) ih
  | ints hlen hmax _ ih =>
    refine .ints hlen (fun x hx => ?_) (by rwa [List.length_map]) ih
    obtain ⟨y, -, rfl⟩ := List.mem_map.1 hx
    exact Nat.mod_lt _ (Nat.pow_pos (by decide))
  | string hmax _ ih => exact .string hmax ih
  | percent _ ih => exact .percent ih
  | char hc _ ih => exact .char hc ih

theorem flatMap_toBytes_mod (len : ℕ) (xs : List ℕ) :
    (xs.map (· % 256 ^ len)).flatMap (BigEndian.toBytes len) =
      xs.flatMap (BigEndian.toBytes len) := by
  simp [List.flatMap_map, BigEndian.toBytes_mod]

/-- The length of a message does not depend on what the fields leave out. -/
theorem getLength_trim (h : Sends fs vs) :
    getLength none (fs.flatMap Field.text) vs =
      getLength none (fs.flatMap Field.text) (trim fs vs) := by
  induction h with
  | nil => rfl
  | @int len v fs vs hlen _ ih =>
    have hstep (v : ℕ) (vs : List Value) :
        getLength none ((Field.int len).text ++ fs.flatMap Field.text) (.int v :: vs) =
          (getLength none (fs.flatMap Field.text) vs).map (len + ·) := by
      obtain rfl | rfl | rfl := hlen <;> rfl
    rw [List.flatMap_cons, trim, hstep, hstep, ih]
  | @ints len xs fs vs hlen _ _ ih =>
    have hstep (xs : List ℕ) (vs : List Value) :
        getLength none ((Field.ints len).text ++ fs.flatMap Field.text) (.ints xs :: vs) =
          (getLength none (fs.flatMap Field.text) vs).map (4 + len * xs.length + ·) := by
      obtain rfl | rfl | rfl := hlen <;> rfl
    rw [List.flatMap_cons, trim, hstep, hstep, ih, List.length_map]
  | @string s fs vs _ _ ih =>
    have hstep (vs : List Value) :
        getLength none (Field.string.text ++ fs.flatMap Field.text) (.string s :: vs) =
          (getLength none (fs.flatMap Field.text) vs).map (4 + s.length + ·) := rfl
    rw [List.flatMap_cons, trim, hstep, hstep, ih]
  | @percent fs vs _ ih =>
    have hstep (vs : List Value) : getLength none (Field.percent.text ++ fs.flatMap Field.text) vs =
        (getLength none (fs.flatMap Field.text) vs).map (1 + ·) := rfl
    rw [List.flatMap_cons, trim, hstep, hstep, ih]
  | @char c fs vs hc _ ih =>
    rw [List.flatMap_cons, Field.text, List.singleton_append, trim, getLength, getLength,
      if_neg hc, if_neg hc, ih]

/-- The bytes of a message do not depend on what the fields leave out. -/
theorem writefVoid_trim (h : Sends fs vs) :
    writefVoid none (fs.flatMap Field.text) vs =
      writefVoid none (fs.flatMap Field.text) (trim fs vs) := by
  induction h with
  | nil => rfl
  | @int len v fs vs hlen _ ih =>
    have hstep (v : ℕ) (vs : List Value) :
        writefVoid none ((Field.int len).text ++ fs.flatMap Field.text) (.int v :: vs) =
          (writefVoid none (fs.flatMap Field.text) vs).map (BigEndian.toBytes len v ++ ·) := by
      obtain rfl | rfl | rfl := hlen <;> rfl
    rw [List.flatMap_cons, trim, hstep, hstep, ih, BigEndian.toBytes_mod]
  | @ints len xs fs vs hlen _ _ ih =>
    have hstep (xs : List ℕ) (vs : List Value) :
        writefVoid none ((Field.ints len).text ++ fs.flatMap Field.text) (.ints xs :: vs) =
          (writefVoid none (fs.flatMap Field.text) vs).map
            (BigEndian.toBytes 4 xs.length ++ xs.flatMap (BigEndian.toBytes len) ++ ·) := by
      obtain rfl | rfl | rfl := hlen <;> rfl
    rw [List.flatMap_cons, trim, hstep, hstep, ih, List.length_map, flatMap_toBytes_mod]
  | @string s fs vs _ _ ih =>
    have hstep (vs : List Value) :
        writefVoid none (Field.string.text ++ fs.flatMap Field.text) (.string s :: vs) =
          (writefVoid none (fs.flatMap Field.text) vs).map
            (BigEndian.toBytes 4 s.length ++ s ++ ·) := rfl
    rw [List.flatMap_cons, trim, hstep, hstep, ih]
  | @percent fs vs _ ih =>
    have hstep (vs : List Value) :
        writefVoid none (Field.percent.text ++ fs.flatMap Field.text) vs =
          (writefVoid none (fs.flatMap Field.text) vs).map ([UInt8.ofNat '%'.toNat] ++ ·) := rfl
    rw [List.flatMap_cons, trim, hstep, hstep, ih]
  | @char c fs vs hc _ ih =>
    rw [List.flatMap_cons, Field.text, List.singleton_append, trim, writefVoid, writefVoid,
      if_neg hc, if_neg hc, ih]

/-- **Writing cuts the arguments to the widths of their fields.** -/
theorem writef_trim (h : Sends fs vs) (hsize : (encode fs (trim fs vs)).length < 2 ^ 32) :
    writef (formatOf fs) vs = some (encode fs (trim fs vs)) := by
  rw [← writef_formatOf h.takes hsize]
  simp only [writef, formatOf, String.toList_ofList, getLength_trim h, writefVoid_trim h]

end ProtocolUtil

open ProtocolUtil (Field Value Sends trim encode writef)

namespace Handler

/-- The characters of the code. -/
def letters (h : Handler) : List Field := (h.format.toList.take 4).map .char

/-- The format is a code of four letters and fields, with no literal percent sign among them. -/
structure Plain (h : Handler) : Prop where
  format : h.format = ProtocolUtil.formatOf (h.letters ++ h.fields)
  four : (h.format.toList.take 4).length = 4
  letter : '%' ∉ h.format.toList.take 4
  percent : Field.percent ∉ h.fields

instance (h : Handler) : Decidable h.Plain :=
  decidable_of_iff (h.format = ProtocolUtil.formatOf (h.letters ++ h.fields) ∧
      (h.format.toList.take 4).length = 4 ∧ '%' ∉ h.format.toList.take 4 ∧
      Field.percent ∉ h.fields)
    ⟨fun ⟨h₁, h₂, h₃, h₄⟩ => ⟨h₁, h₂, h₃, h₄⟩, fun h => ⟨h.1, h.2, h.3, h.4⟩⟩

variable {h : Handler} {args : List Value}

theorem trim_letters (cs : List Char) (fs : List Field) (vs : List Value) :
    trim (cs.map .char ++ fs) vs = trim fs vs := by
  induction cs with
  | nil => rfl
  | cons c cs ih => rw [List.map_cons, List.cons_append, trim, ih]

theorem encode_letters (cs : List Char) (fs : List Field) (vs : List Value) :
    encode (cs.map .char ++ fs) vs = (cs.map fun c => UInt8.ofNat c.toNat) ++ encode fs vs := by
  induction cs with
  | nil => rfl
  | cons c cs ih =>
    rw [List.map_cons, List.cons_append, encode, ih, List.map_cons, List.cons_append]

theorem sends_letters {cs : List Char} {fs : List Field} {vs : List Value} (h : Sends fs vs)
    (hcs : ∀ c ∈ cs, c ≠ '%') : Sends (cs.map .char ++ fs) vs := by
  induction cs with
  | nil => exact h
  | cons c cs ih =>
    obtain ⟨hc, hcs⟩ := List.forall_mem_cons.1 hcs
    exact .char hc (ih hcs)

theorem length_code (hplain : h.Plain) : h.code.length = 4 := by
  rw [code, List.length_map, hplain.four]

/-- What is written with the format of the handler. -/
theorem writef_format (hplain : h.Plain) (hsends : Sends h.fields args)
    (hsize : 4 + (encode h.fields (trim h.fields args)).length < 2 ^ 32) :
    writef h.format args = some (h.code ++ encode h.fields (trim h.fields args)) := by
  have hbytes : encode (h.letters ++ h.fields) (trim (h.letters ++ h.fields) args) =
      h.code ++ encode h.fields (trim h.fields args) := by
    rw [letters, trim_letters, encode_letters]
    rfl
  have hletters : ∀ c ∈ h.format.toList.take 4, c ≠ '%' := fun _ hc hpercent =>
    hplain.letter (hpercent ▸ hc)
  have hwritten := ProtocolUtil.writef_trim (sends_letters hsends hletters)
    (show (encode (h.letters ++ h.fields) (trim (h.letters ++ h.fields) args)).length < 2 ^ 32 by
      rw [hbytes, List.length_append, length_code hplain]
      exact hsize)
  rw [← hbytes, hplain.format]
  exact hwritten

end Handler

namespace Peer

variable {peer : Peer} {q : Parser} {h : Handler} {args values : List Value}

/-- The message is written with the arguments, and the peer reads the values from its packet. -/
structure Says (peer : Peer) (q : Parser) (format : String) (args values : List Value)
    (verdict : Verdict) (p : Bytes) : Prop where
  writes : writef format args = some p
  sendable : Sendable p
  fits : Framing.fit peer q p = some verdict
  reads : Framing.decode peer q p = (.ofVerdict (p.take 4) (some values) verdict, [])

/-- **A message with the format of a handler** is read by the handler. -/
theorem says_of_handler (hlookup : peer.lookup q h.code = some h) (hplain : h.Plain)
    (hsends : Sends h.fields args)
    (hsize : 4 + (encode h.fields (trim h.fields args)).length ≤
      PacketStreamFilter.maxMessageLength) :
    Says peer q h.format args (trim h.fields args) (h.verdict (some (trim h.fields args)))
      (h.code ++ encode h.fields (trim h.fields args)) := by
  set fields := encode h.fields (trim h.fields args)
  have hfour := h.length_code hplain
  have htake : (h.code ++ fields).take 4 = h.code := by rw [← hfour, List.take_left]
  have hdrop : (h.code ++ fields).drop 4 = fields := by rw [← hfour, List.drop_left]
  have hlong : ¬(h.code ++ fields).length < 4 := by
    rw [List.length_append]
    omega
  have hread : ProtocolUtil.vreadf Reading.take h.fields fields =
      (.ok (trim h.fields args), []) := by
    have hall := ProtocolUtil.vreadf_encode hsends.takes hplain.percent []
    rwa [List.append_nil] at hall
  refine ⟨h.writef_format hplain hsends (Nat.lt_of_le_of_lt hsize (by decide)), ⟨?_, ?_⟩, ?_, ?_⟩
  · intro hnil
    rw [hnil] at hlong
    exact hlong (by decide)
  · rw [List.length_append, hfour]
    exact hsize
  · rw [Framing.fit, if_neg hlong, htake, hdrop, hlookup]
    dsimp only
    rw [hread]
  · have hall : ProtocolUtil.readf Reading.take h.fields
        ((h.code ++ fields).drop 4) = (.ok (some (trim h.fields args)), []) := by
      rw [hdrop, ProtocolUtil.readf, hread]
    exact Framing.decode_of_read (Nat.le_of_not_lt hlong) (htake.symm ▸ hlookup) hall

end Peer

end InputLeap
