import InputLeap.Clipboard.Basic
import InputLeap.Net.Slice
import Mathlib.Algebra.Order.Ring.Int

/-!
# Reading a clipboard by position

`IClipboard::unmarshall` reads a string by a pointer that it moves on by numbers from the string.
Here the pointer is a position, and there is no result when a byte outside of the string is read or
a table is used at an index outside of it.

## Main definitions

* `Clipboard.unmarshallAt` : the function. The language leaves it open whether an enumeration is
  signed.
* `Clipboard.Entry`, `Clipboard.Fits` : formats as they stand in a string, and what their numbers
  have to be for the function to stay inside of the string.

## Main results

* `Clipboard.readFormats_eq_some_iff` : the loop over the formats.
* `Clipboard.staysInside_iff` : when the function stays inside of the string and of the tables.
-/

namespace InputLeap

/-- `kNumFormats`. -/
def numFormats : ℕ := Format.all.length

namespace Clipboard

/-- The number in the four bytes from a position on. -/
def readUInt32At (data : Bytes) (index : ℕ) : Option ℕ :=
  (slice? data index 4).bind fun bytes => (readUInt32 bytes).map Prod.fst

/-- The enumerator that a number is cast to: a negative one if enumerations are signed and the
number does not fit. -/
def toEFormat (isSigned : Bool) (n : ℕ) : ℤ := if isSigned ∧ 2 ^ 31 ≤ n then n - 2 ^ 32 else n

/-- Adds data at the index of a format. -/
def addAt (c : Clipboard) (format : ℤ) (data : Bytes) : Option Clipboard :=
  match format with
  | .ofNat n => (Format.ofNat? n).map fun f => c.add f data
  | .negSucc _ => none

/-- Reads `n` formats from a position on; those with an unknown number are skipped. -/
def readFormats (isSigned : Bool) (data : Bytes) : ℕ → ℕ → Clipboard → Option Clipboard
  | 0, _, c => some c
  | n + 1, index, c => do
    let format := toEFormat isSigned (← readUInt32At data index)
    let size ← readUInt32At data (index + 4)
    if format < numFormats then
      let c ← c.addAt format (← slice? data (index + 8) size)
      readFormats isSigned data n (index + 8 + size) c
    else readFormats isSigned data n (index + 8 + size) c

/-- The clipboard that is made of a string. -/
def unmarshallAt (isSigned : Bool) (data : Bytes) (time : ℕ) : Option Clipboard := do
  readFormats isSigned data (← readUInt32At data 0) 4 (clear time)

/-- A format as it stands in a string: its number, the size of its data and the data, of which some
may be missing. -/
structure Entry where
  number : ℕ
  size : ℕ
  data : Bytes

/-- The bytes of the entry. -/
def Entry.bytes (e : Entry) : Bytes := writeUInt32 e.number ++ (writeUInt32 e.size ++ e.data)

/-- All numbers fit, and no data are missing but for those of an unknown format at the end. -/
def Fits (isSigned : Bool) : List Entry → Prop
  | [] => True
  | e :: entries =>
    e.number < 2 ^ 32 ∧ e.size < 2 ^ 32 ∧ ¬(isSigned = true ∧ 2 ^ 31 ≤ e.number) ∧
      (e.data.length = e.size ∨ numFormats ≤ e.number ∧ entries = []) ∧ Fits isSigned entries

/-- What an entry adds to a clipboard. -/
def addEntry (c : Clipboard) (e : Entry) : Clipboard :=
  match Format.ofNat? e.number with
  | some f => c.add f e.data
  | none => c

/-! ### Numbers -/

variable {bytes rest data : Bytes} {v index n time : ℕ} {isSigned : Bool} {c c' : Clipboard}

@[simp] theorem length_writeUInt32 (v : ℕ) : (writeUInt32 v).length = 4 := rfl

/-- A number is read where it was written. -/
theorem readUInt32_eq_some_iff :
    readUInt32 bytes = some (v, rest) ↔ v < 2 ^ 32 ∧ bytes = writeUInt32 v ++ rest := by
  constructor
  · intro h
    match bytes, h with
    | a :: b :: c :: d :: _, h =>
      obtain ⟨rfl, rfl⟩ := Prod.mk.inj (Option.some.inj h)
      have ha := a.toNat_lt
      have hb := b.toNat_lt
      have hc := c.toNat_lt
      have hd := d.toNat_lt
      refine ⟨by omega, ?_⟩
      have hbyte (x : UInt8) (m : ℕ) (hm : m % 256 = x.toNat) : UInt8.ofNat m = x := by
        rw [← UInt8.toNat_inj, UInt8.toNat_ofNat', hm]
      rw [writeUInt32, hbyte a _ (by omega), hbyte b _ (by omega), hbyte c _ (by omega),
        hbyte d _ (by omega)]
      rfl
  · rintro ⟨hv, rfl⟩
    simp only [writeUInt32, List.cons_append, List.nil_append, readUInt32, UInt8.toNat_ofNat']
    refine congrArg some (Prod.ext ?_ rfl)
    dsimp only
    omega

theorem readUInt32At_eq_some_iff : readUInt32At data index = some v ↔
    v < 2 ^ 32 ∧ data.drop index = writeUInt32 v ++ data.drop (index + 4) := by
  rw [readUInt32At, Option.bind_eq_some_iff]
  constructor
  · rintro ⟨bytes, hslice, hread⟩
    obtain ⟨⟨_, rest⟩, hnumber, rfl⟩ := Option.map_eq_some_iff.1 hread
    obtain ⟨hlength, hdrop⟩ := slice?_eq_some_iff.1 hslice
    obtain ⟨hv, rfl⟩ := readUInt32_eq_some_iff.1 hnumber
    have hrest : rest = [] := by
      rw [List.length_append, length_writeUInt32] at hlength
      exact List.length_eq_zero_iff.1 (by omega)
    rw [hrest, List.append_nil] at hdrop
    exact ⟨hv, hdrop⟩
  · rintro ⟨hv, hdrop⟩
    refine ⟨writeUInt32 v, slice?_eq_some_iff.2 ⟨rfl, hdrop⟩, ?_⟩
    rw [readUInt32_eq_some_iff.2 ⟨hv, (List.append_nil _).symm⟩]
    rfl

theorem ofNat?_eq_none_iff : Format.ofNat? v = none ↔ numFormats ≤ v :=
  List.getElem?_eq_none_iff

/-- The index of a format is its number, but for a negative one. -/
theorem toEFormat_lt_iff (hv : v < 2 ^ 32) : toEFormat isSigned v < numFormats ↔
    (isSigned = true ∧ 2 ^ 31 ≤ v) ∨ v < numFormats := by
  have hnum : numFormats = 8 := rfl
  rw [toEFormat]
  split_ifs with hneg
  · exact iff_of_true (by omega) (.inl hneg)
  · rw [or_iff_right hneg, Nat.cast_lt]

theorem addAt_toEFormat (hv : v < 2 ^ 32) : c.addAt (toEFormat isSigned v) data =
    if isSigned = true ∧ 2 ^ 31 ≤ v then none
    else (Format.ofNat? v).map fun f => c.add f data := by
  rw [toEFormat]
  split_ifs
  · obtain ⟨m, hm⟩ := Int.eq_negSucc_of_lt_zero (a := (v : ℤ) - 2 ^ 32) (by omega)
    rw [hm, addAt]
  · rfl

/-- A format is added, or its number is unknown. -/
theorem turn_eq_some_iff {g : Clipboard → Option Clipboard} {size : ℕ} (hv : v < 2 ^ 32) :
    (if toEFormat isSigned v < numFormats then
        (slice? data index size).bind fun bytes => (c.addAt (toEFormat isSigned v) bytes).bind g
      else g c) = some c' ↔
      ¬(isSigned = true ∧ 2 ^ 31 ≤ v) ∧
        ((∃ f bytes, Format.ofNat? v = some f ∧ slice? data index size = some bytes ∧
            g (c.add f bytes) = some c') ∨
          Format.ofNat? v = none ∧ g c = some c') := by
  simp only [toEFormat_lt_iff hv, addAt_toEFormat hv]
  by_cases hneg : isSigned = true ∧ 2 ^ 31 ≤ v
  · -- a negative format passes the test, and the table has no such index
    rw [if_pos (.inl hneg)]
    refine iff_of_false ?_ fun hand => hand.1 hneg
    intro h
    obtain ⟨bytes, -, h⟩ := Option.bind_eq_some_iff.1 h
    rw [if_pos hneg] at h
    cases h
  rw [and_iff_right hneg]
  cases hf : Format.ofNat? v with
  | none =>
    rw [if_neg (not_or.2 ⟨hneg, not_lt.2 (ofNat?_eq_none_iff.1 hf)⟩)]
    simp
  | some f =>
    have hlt : v < numFormats := by
      by_contra hle
      rw [ofNat?_eq_none_iff.2 (not_lt.1 hle)] at hf
      cases hf
    simp only [if_pos (Or.inr hlt), if_neg hneg, Option.bind_eq_some_iff, Option.map_some,
      Option.bind_some]
    simp

/-- One turn of the loop. -/
theorem readFormats_succ_iff : readFormats isSigned data (n + 1) index c = some c' ↔
    ∃ v size, readUInt32At data index = some v ∧ readUInt32At data (index + 4) = some size ∧
      ¬(isSigned = true ∧ 2 ^ 31 ≤ v) ∧
      ((∃ f bytes, Format.ofNat? v = some f ∧ slice? data (index + 8) size = some bytes ∧
          readFormats isSigned data n (index + 8 + size) (c.add f bytes) = some c') ∨
        Format.ofNat? v = none ∧
          readFormats isSigned data n (index + 8 + size) c = some c') := by
  rw [readFormats, Option.bind_eq_bind, Option.bind_eq_some_iff]
  refine exists_congr fun v => ?_
  dsimp only [Option.bind_eq_bind]
  rw [Option.bind_eq_some_iff, ← exists_and_left]
  refine exists_congr fun size => and_congr_right fun hv => and_congr_right fun _ => ?_
  exact turn_eq_some_iff (readUInt32At_eq_some_iff.1 hv).1

/-! ### Entries -/

variable {e : Entry} {entries : List Entry}

/-- An entry stands where its number, its size and its data do. -/
theorem Entry.drop_eq {i : ℕ} : data.drop i = e.bytes ++ rest ↔
    data.drop i = writeUInt32 e.number ++ data.drop (i + 4) ∧
      data.drop (i + 4) = writeUInt32 e.size ++ data.drop (i + 8) ∧
      data.drop (i + 8) = e.data ++ rest := by
  rw [Entry.bytes, List.append_assoc, List.append_assoc]
  constructor
  · intro h
    have hsize : data.drop (i + 4) = writeUInt32 e.size ++ (e.data ++ rest) := by
      rw [← List.drop_drop, h]
      exact List.drop_left' rfl
    have hdata : data.drop (i + 8) = e.data ++ rest := by
      rw [show i + 8 = i + 4 + 4 from rfl, ← List.drop_drop, hsize]
      exact List.drop_left' rfl
    exact ⟨h.trans (congrArg _ hsize.symm), hsize.trans (congrArg _ hdata.symm), hdata⟩
  · rintro ⟨hnumber, hsize, hdata⟩
    rw [hnumber, hsize, hdata]

theorem addEntry_of_known {f : Format} (h : Format.ofNat? e.number = some f) :
    c.addEntry e = c.add f e.data := by
  rw [addEntry, h]

theorem addEntry_of_unknown (h : Format.ofNat? e.number = none) : c.addEntry e = c := by
  rw [addEntry, h]

/-- Where nothing is left there is no entry. -/
theorem flatMap_bytes_eq_nil (h : entries.flatMap Entry.bytes ++ rest = []) : entries = [] := by
  cases entries with
  | nil => rfl
  | cons e entries =>
    rw [List.flatMap_cons, Entry.bytes, List.append_assoc, List.append_assoc] at h
    cases h

/-- **The loop over the formats** adds those of the entries from the position on. -/
theorem readFormats_eq_some_iff : readFormats isSigned data n index c = some c' ↔
    ∃ entries rest, entries.length = n ∧ Fits isSigned entries ∧
      data.drop index = entries.flatMap Entry.bytes ++ rest ∧ c' = entries.foldl addEntry c := by
  induction n generalizing index c with
  | zero =>
    constructor
    · intro h
      exact ⟨[], data.drop index, rfl, trivial, rfl, (Option.some.inj h).symm⟩
    · rintro ⟨entries, rest, hlength, -, -, rfl⟩
      rw [List.length_eq_zero_iff.1 hlength]
      rfl
  | succ n ih =>
    rw [readFormats_succ_iff]
    constructor
    · rintro ⟨v, size, hv, hsize, hneg, hturn⟩
      obtain ⟨hv, hnumber⟩ := readUInt32At_eq_some_iff.1 hv
      obtain ⟨hsize, hsizes⟩ := readUInt32At_eq_some_iff.1 hsize
      rcases hturn with ⟨f, bytes, hf, hslice, hloop⟩ | ⟨hf, hloop⟩
      · -- a known format, whose data were read
        obtain ⟨entries, rest, hlength, hfits, hrest, rfl⟩ := ih.1 hloop
        obtain ⟨hbytes, hdata⟩ := slice?_eq_some_iff.1 hslice
        refine ⟨⟨v, size, bytes⟩ :: entries, rest, congrArg _ hlength,
          ⟨hv, hsize, hneg, .inl hbytes, hfits⟩, ?_, ?_⟩
        · rw [List.flatMap_cons, List.append_assoc, ← hrest]
          exact Entry.drop_eq.2 ⟨hnumber, hsizes, hdata⟩
        · rw [List.foldl_cons, addEntry_of_known (e := ⟨v, size, bytes⟩) hf]
      · obtain ⟨entries, rest, hlength, hfits, hrest, rfl⟩ := ih.1 hloop
        refine ⟨⟨v, size, (data.drop (index + 8)).take size⟩ :: entries, rest, congrArg _ hlength,
          ⟨hv, hsize, hneg, ?_, hfits⟩, ?_, ?_⟩
        · -- an unknown format may promise more than there is, and then it is the last one
          by_cases hwhole : index + 8 + size ≤ data.length
          · left
            rw [List.length_take, List.length_drop]
            dsimp only
            omega
          · have hnil : entries.flatMap Entry.bytes ++ rest = [] := by
              rw [← hrest]
              exact List.drop_eq_nil_of_le (by omega)
            exact .inr ⟨ofNat?_eq_none_iff.1 hf, flatMap_bytes_eq_nil hnil⟩
        · rw [List.flatMap_cons, List.append_assoc, ← hrest]
          refine Entry.drop_eq.2 ⟨hnumber, hsizes, ?_⟩
          dsimp only
          rw [← List.drop_drop (i := size), List.take_append_drop]
        · rw [List.foldl_cons, addEntry_of_unknown hf]
    · rintro ⟨_ | ⟨e, entries⟩, rest, hlength, hfits, hdrop, rfl⟩
      · cases hlength
      obtain ⟨hv, hsize, hneg, hdata, hfits⟩ := hfits
      rw [List.flatMap_cons, List.append_assoc] at hdrop
      obtain ⟨hnumber, hsizes, hbytes⟩ := Entry.drop_eq.1 hdrop
      have hlength : entries.length = n := Nat.succ.inj hlength
      refine ⟨e.number, e.size, readUInt32At_eq_some_iff.2 ⟨hv, hnumber⟩,
        readUInt32At_eq_some_iff.2 ⟨hsize, hsizes⟩, hneg, ?_⟩
      rcases hdata with hwhole | ⟨hunknown, rfl⟩
      · have hrest : data.drop (index + 8 + e.size) = entries.flatMap Entry.bytes ++ rest := by
          rw [← List.drop_drop, hbytes]
          exact List.drop_left' hwhole
        cases hf : Format.ofNat? e.number with
        | some f =>
          refine .inl ⟨f, e.data, rfl, slice?_eq_some_iff.2 ⟨hwhole, hrest ▸ hbytes⟩, ?_⟩
          refine ih.2 ⟨entries, rest, hlength, hfits, hrest, ?_⟩
          rw [List.foldl_cons, addEntry_of_known hf]
        | none =>
          refine .inr ⟨rfl, ih.2 ⟨entries, rest, hlength, hfits, hrest, ?_⟩⟩
          rw [List.foldl_cons, addEntry_of_unknown hf]
      · -- the last entry, whose data are not looked at
        have hf := ofNat?_eq_none_iff.2 hunknown
        refine .inr ⟨hf, ih.2 ⟨[], _, hlength, trivial, rfl, ?_⟩⟩
        rw [List.foldl_cons, addEntry_of_unknown hf]

/-- Formats in the form in which a clipboard travels. -/
def marshallEntries (entries : List Entry) : Bytes :=
  writeUInt32 entries.length ++ entries.flatMap Entry.bytes

theorem unmarshallAt_eq_some_iff : unmarshallAt isSigned data time = some c ↔
    ∃ entries rest, entries.length < 2 ^ 32 ∧ Fits isSigned entries ∧
      data = marshallEntries entries ++ rest ∧ c = entries.foldl addEntry (clear time) := by
  rw [unmarshallAt, Option.bind_eq_bind, Option.bind_eq_some_iff]
  constructor
  · rintro ⟨n, hn, hloop⟩
    obtain ⟨hlt, hdrop⟩ := readUInt32At_eq_some_iff.1 hn
    obtain ⟨entries, rest, rfl, hfits, hrest, hc⟩ := readFormats_eq_some_iff.1 hloop
    refine ⟨entries, rest, hlt, hfits, ?_, hc⟩
    rw [marshallEntries, List.append_assoc, ← hrest]
    exact hdrop
  · rintro ⟨entries, rest, hlt, hfits, rfl, hc⟩
    have hdrop : (marshallEntries entries ++ rest).drop 4 =
        entries.flatMap Entry.bytes ++ rest := by
      rw [marshallEntries, List.append_assoc]
      exact List.drop_left' rfl
    refine ⟨entries.length, readUInt32At_eq_some_iff.2 ⟨hlt, ?_⟩,
      readFormats_eq_some_iff.2 ⟨entries, rest, rfl, hfits, hdrop, hc⟩⟩
    rw [hdrop, ← List.append_assoc]
    rfl

/-! ### Staying inside -/

theorem toNat_of_ofNat? {f : Format} (h : Format.ofNat? v = some f) : f.toNat = v := by
  have hall : ∀ v < numFormats, (Format.ofNat? v).map Format.toNat = some v := by decide
  have hv : v < numFormats := by
    by_contra hle
    rw [ofNat?_eq_none_iff.2 (not_lt.1 hle)] at h
    cases h
  have hmap := hall v hv
  rw [h] at hmap
  exact Option.some.inj hmap

/-- Data are added by an entry. -/
theorem data_foldl_addEntry {f : Format} (h : (entries.foldl addEntry c).data f = some bytes) :
    c.data f = some bytes ∨
      ∃ e ∈ entries, Format.ofNat? e.number = some f ∧ e.data = bytes := by
  induction entries generalizing c with
  | nil => exact .inl h
  | cons e entries ih =>
    rcases ih h with hdata | ⟨e', he', hentry⟩
    · cases hf : Format.ofNat? e.number with
      | none =>
        rw [addEntry_of_unknown hf] at hdata
        exact .inl hdata
      | some g =>
        rw [addEntry_of_known hf, add] at hdata
        dsimp only at hdata
        split_ifs at hdata with heq
        · exact .inr ⟨e, List.mem_cons_self, heq ▸ hf, Option.some.inj hdata⟩
        · exact .inl hdata
    · exact .inr ⟨e', List.mem_cons_of_mem _ he', hentry⟩

/-- An entry of a known format has all its data. -/
theorem Fits.of_mem (h : Fits isSigned entries) (he : e ∈ entries) :
    e.number < 2 ^ 32 ∧ e.size < 2 ^ 32 ∧ (e.number < numFormats → e.data.length = e.size) := by
  induction entries with
  | nil => cases he
  | cons e' entries ih =>
    obtain ⟨hnumber, hsize, -, hdata, hfits⟩ := h
    rcases List.mem_cons.1 he with rfl | he
    · exact ⟨hnumber, hsize, fun hlt => hdata.resolve_right fun hor => hor.1.not_gt hlt⟩
    · exact ih hfits he

/-- The function stays inside of the string and of the tables, and what it adds stands in the string
behind its number and its size. -/
def StaysInside (isSigned : Bool) (data : Bytes) (time : ℕ) : Prop :=
  ∃ c, unmarshallAt isSigned data time = some c ∧ ∀ f bytes, c.data f = some bytes →
    ∃ index, readUInt32At data index = some f.toNat ∧
      readUInt32At data (index + 4) = some bytes.length ∧
      slice? data (index + 8) bytes.length = some bytes

/-- The string has the formats that it announces: all their data, but for those of an unknown
format at the end, and no number that is a negative one. -/
def Complete (isSigned : Bool) (data : Bytes) : Prop :=
  ∃ entries rest, entries.length < 2 ^ 32 ∧ Fits isSigned entries ∧
    data = marshallEntries entries ++ rest

/-- **The strings for which `unmarshall` stays inside** of the string and of the clipboard's tables
are those that have the formats that they announce. -/
theorem staysInside_iff : StaysInside isSigned data time ↔ Complete isSigned data := by
  constructor
  · rintro ⟨c, hc, -⟩
    obtain ⟨entries, rest, hlt, hfits, hdata, -⟩ := unmarshallAt_eq_some_iff.1 hc
    exact ⟨entries, rest, hlt, hfits, hdata⟩
  · rintro ⟨entries, rest, hlt, hfits, rfl⟩
    refine ⟨_, unmarshallAt_eq_some_iff.2 ⟨entries, rest, hlt, hfits, rfl, rfl⟩, ?_⟩
    intro f bytes hf
    obtain ⟨e, he, hknown, rfl⟩ := (data_foldl_addEntry hf).resolve_left nofun
    obtain ⟨hnumber, hsize, hwhole⟩ := hfits.of_mem he
    have hformat := toNat_of_ofNat? hknown
    obtain ⟨before, after, rfl⟩ := List.append_of_mem he
    -- the entry stands behind the ones before it
    have hdrop : (marshallEntries (before ++ e :: after) ++ rest).drop
        (4 + (before.flatMap Entry.bytes).length) =
          e.bytes ++ (after.flatMap Entry.bytes ++ rest) := by
      rw [marshallEntries, List.flatMap_append, List.flatMap_cons, List.append_assoc,
        List.append_assoc, List.append_assoc, ← List.append_assoc]
      exact List.drop_left' (by simp)
    obtain ⟨hfirst, hsecond, hthird⟩ := Entry.drop_eq.1 hdrop
    have hlength : e.data.length = e.size := by
      refine hwhole ?_
      by_contra hle
      rw [ofNat?_eq_none_iff.2 (not_lt.1 hle)] at hknown
      cases hknown
    refine ⟨_, readUInt32At_eq_some_iff.2 ⟨?_, ?_⟩, readUInt32At_eq_some_iff.2 ⟨?_, ?_⟩,
      slice?_of_drop hthird⟩
    · exact hformat ▸ hnumber
    · rw [hformat]
      exact hfirst
    · exact hlength ▸ hsize
    · rw [hlength]
      exact hsecond

theorem not_staysInside :
    ¬∀ (isSigned : Bool) (data : Bytes) (time : ℕ), StaysInside isSigned data time := by
  intro h
  obtain ⟨c, hc, -⟩ := h false [] 0
  cases hc

end Clipboard

end InputLeap
