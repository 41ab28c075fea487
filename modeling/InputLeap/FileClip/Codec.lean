import InputLeap.Clipboard.Unmarshall
import InputLeap.FileClip.Basic
import InputLeap.Net.BigEndian
import InputLeap.Net.Reader

/-!
# The encoding of copied files

## Main definitions

* `FileClip.marshall` : the encoding.
* `FileClip.Valid` : the clips that can be sent.
* `FileClip.Reader`, `FileClip.unmarshallAt` : decoding by position, as the code does it. An access
  outside of the string has no result.

## Main results

* `FileClip.unmarshallAt_run` : no byte outside of the string is read, and the result is that of
  reading what is left.
* `FileClip.unmarshallAt_iff` : what is accepted are the encodings of valid clips.
-/

namespace InputLeap

namespace FileClip

open Clipboard (writeUInt32)

/-! ### Encoding -/

def writeUInt64 (value : ℕ) : Bytes := writeUInt32 (value / 2 ^ 32) ++ writeUInt32 value

def writeString (text : Bytes) : Bytes := writeUInt32 text.length ++ text

/-- The bytes of a file. -/
def File.marshall (file : File) : Bytes :=
  writeString file.name ++ (writeUInt64 file.size ++ writeUInt64 file.modified)

/-- The encoding of a clip. -/
def marshall (clip : FileClip) : Bytes :=
  magic ++ (writeString clip.id ++ (writeUInt32 clip.files.length ++
    clip.files.flatMap File.marshall))

/-! ### Decoding -/

namespace Reader

variable (data : Bytes)

/-- Reads a number if there are four bytes. The difference of the unsigned numbers is not small
where the position is behind the end. -/
def readUInt32 (pos : ℕ) : OptionT Option (ℕ × ℕ) :=
  if pos ≤ data.length ∧ data.length - pos < 4 then failure
  else do
    let bytes ← OptionT.lift (slice? data pos 4)
    pure (BigEndian.ofBytes bytes, pos + 4)

def readUInt64 (pos : ℕ) : OptionT Option (ℕ × ℕ) := do
  let (high, pos) ← readUInt32 data pos
  let (low, pos) ← readUInt32 data pos
  pure (high * 2 ^ 32 + low, pos)

def readString (maxLength : ℕ) (pos : ℕ) : OptionT Option (Bytes × ℕ) := do
  let (length, pos) ← readUInt32 data pos
  if length > maxLength ∨ pos ≤ data.length ∧ data.length - pos < length then failure
  else
    let text ← OptionT.lift (slice? data pos length)
    pure (text, pos + length)

end Reader

/-- Reads `n` files. -/
def readFilesAt (data : Bytes) : ℕ → ℕ → OptionT Option (List File × ℕ)
  | 0, pos => pure ([], pos)
  | n + 1, pos => do
    let (name, pos) ← Reader.readString data maxNameLength pos
    if !isPlainName name then failure
    else
      let (size, pos) ← Reader.readUInt64 data pos
      let (modified, pos) ← Reader.readUInt64 data pos
      let (files, pos) ← readFilesAt data n pos
      pure (⟨name, size, modified⟩ :: files, pos)

/-- Decodes the data of a clip by position. -/
def unmarshallAt (data : Bytes) : OptionT Option FileClip :=
  if data.take magic.length ≠ magic then failure
  else do
    let (id, pos) ← Reader.readString data maxIdLength magic.length
    if id = [] then failure
    else
      let (count, pos) ← Reader.readUInt32 data pos
      if count = 0 ∨ count > maxFiles then failure
      else
        let (files, pos) ← readFilesAt data count pos
        if pos = data.length then pure ⟨id, files⟩ else failure

/-! ### Positions -/

variable {data bytes rest text : Bytes} {n v maxLength : ℕ} {files : List File} {clip : FileClip}

theorem readUInt32_eq_ite (s : Bytes) : Clipboard.readUInt32 s =
    if s.length < 4 then none else some (BigEndian.ofBytes (s.take 4), s.drop 4) := by
  match s with
  | [] | [_] | [_, _] | [_, _, _] => rfl
  | a :: b :: c :: d :: rest =>
    rw [if_neg (by simp)]
    refine congrArg some (Prod.ext ?_ rfl)
    show a.toNat * 2 ^ 24 + b.toNat * 2 ^ 16 + c.toNat * 2 ^ 8 + d.toNat =
      (((0 * 256 + a.toNat) * 256 + b.toNat) * 256 + c.toNat) * 256 + d.toNat
    omega

theorem readsAs_readUInt32 (data : Bytes) :
    ReadsAs data (Reader.readUInt32 data) Clipboard.readUInt32 := by
  have hread : Clipboard.readUInt32 = fun s : Bytes =>
      if s.length < 4 then none else some (BigEndian.ofBytes (s.take 4), s.drop 4) := by
    funext s
    exact readUInt32_eq_ite s
  rw [hread]
  exact ReadsAs.take 4 BigEndian.ofBytes

theorem readsAs_readUInt64 (data : Bytes) :
    ReadsAs data (Reader.readUInt64 data) readUInt64 :=
  (readsAs_readUInt32 data).bind fun high => (readsAs_readUInt32 data).bind fun low =>
    .pure (high * 2 ^ 32 + low)

theorem readsAs_readString (data : Bytes) (maxLength : ℕ) :
    ReadsAs data (Reader.readString data maxLength) (readString maxLength) := by
  unfold Reader.readString readString
  refine (readsAs_readUInt32 data).bind fun length => ?_
  by_cases hlong : length > maxLength
  · simp only [hlong, true_or, if_true]
    exact .refuse
  · simp only [hlong, false_or]
    exact .take length fun text => text

theorem readsAs_readFilesAt (data : Bytes) (n : ℕ) :
    ReadsAs data (readFilesAt data n) (readFiles n) := by
  induction n with
  | zero => exact .pure []
  | succ n ih =>
    show ReadsAs data (fun pos => readFilesAt data (n + 1) pos) fun bytes => readFiles (n + 1) bytes
    unfold readFilesAt readFiles
    refine (readsAs_readString data maxNameLength).bind fun name => ?_
    refine .ite .refuse ?_
    refine (readsAs_readUInt64 data).bind fun size => ?_
    refine (readsAs_readUInt64 data).bind fun modified => ?_
    exact ih.bind fun files => .pure (⟨name, size, modified⟩ :: files)

/-- **The decoder stays inside** of the string, and gives what reading the rest gives. -/
theorem unmarshallAt_run (data : Bytes) : (unmarshallAt data).run = some (unmarshall data) := by
  unfold unmarshallAt unmarshall
  by_cases hmagic : data.take magic.length ≠ magic
  · rw [if_pos hmagic, if_pos hmagic]
    rfl
  rw [if_neg hmagic, if_neg hmagic]
  have hstart : magic.length ≤ data.length := by
    have hlength := congrArg List.length (not_not.1 hmagic)
    rw [List.length_take] at hlength
    omega
  refine (readsAs_readString data maxIdLength).run_bind hstart fun id pos hpos => ?_
  dsimp only
  split_ifs
  · rfl
  refine (readsAs_readUInt32 data).run_bind hpos fun count pos hpos => ?_
  dsimp only
  split_ifs
  · rfl
  refine (readsAs_readFilesAt data count).run_bind hpos fun files pos hpos => ?_
  dsimp only
  have hend : data.drop pos = [] ↔ pos = data.length := by
    rw [List.drop_eq_nil_iff]
    omega
  simp only [hend]
  split_ifs
  · rfl
  · rfl

/-! ### What is accepted -/

/-- Only the low four bytes of a number are written. -/
theorem writeUInt32_mod (v : ℕ) : writeUInt32 (v % 2 ^ 32) = writeUInt32 v := by
  have hbyte (m m' : ℕ) (h : m % 256 = m' % 256) : UInt8.ofNat m = UInt8.ofNat m' := by
    rw [← UInt8.toNat_inj, UInt8.toNat_ofNat', UInt8.toNat_ofNat', h]
  simp only [writeUInt32]
  rw [hbyte (v % 2 ^ 32 / 2 ^ 24) (v / 2 ^ 24) (by omega),
    hbyte (v % 2 ^ 32 / 2 ^ 16) (v / 2 ^ 16) (by omega),
    hbyte (v % 2 ^ 32 / 2 ^ 8) (v / 2 ^ 8) (by omega), hbyte (v % 2 ^ 32) v (by omega)]

theorem readUInt64_eq_some_iff :
    readUInt64 bytes = some (v, rest) ↔ v < 2 ^ 64 ∧ bytes = writeUInt64 v ++ rest := by
  rw [readUInt64, Option.bind_eq_bind, Option.bind_eq_some_iff, writeUInt64, List.append_assoc]
  constructor
  · rintro ⟨⟨high, _⟩, hhigh, h⟩
    obtain ⟨⟨low, _⟩, hlow, h⟩ := Option.bind_eq_some_iff.1 h
    obtain ⟨rfl, rfl⟩ := Prod.mk.inj (Option.some.inj h)
    obtain ⟨hhigh, rfl⟩ := Clipboard.readUInt32_eq_some_iff.1 hhigh
    obtain ⟨hlow, rfl⟩ := Clipboard.readUInt32_eq_some_iff.1 hlow
    refine ⟨by omega, ?_⟩
    have hdiv : (high * 2 ^ 32 + low) / 2 ^ 32 = high := by omega
    have hmod : (high * 2 ^ 32 + low) % 2 ^ 32 = low := by omega
    rw [hdiv, ← writeUInt32_mod (high * 2 ^ 32 + low), hmod]
  · rintro ⟨hv, rfl⟩
    refine ⟨_, Clipboard.readUInt32_eq_some_iff.2 ⟨by omega, rfl⟩,
      Option.bind_eq_some_iff.2 ⟨(v % 2 ^ 32, rest), ?_, ?_⟩⟩
    · exact Clipboard.readUInt32_eq_some_iff.2 ⟨by omega, by rw [writeUInt32_mod]⟩
    · refine congrArg some (Prod.ext ?_ rfl)
      dsimp only
      omega

theorem readString_eq_some_iff (hmax : maxLength < 2 ^ 32) :
    readString maxLength bytes = some (text, rest) ↔
      text.length ≤ maxLength ∧ bytes = writeString text ++ rest := by
  rw [readString, Option.bind_eq_bind, Option.bind_eq_some_iff, writeString, List.append_assoc]
  constructor
  · rintro ⟨⟨length, left⟩, hlength, h⟩
    obtain ⟨-, rfl⟩ := Clipboard.readUInt32_eq_some_iff.1 hlength
    dsimp only at h
    split_ifs at h with hlong
    obtain ⟨rfl, rfl⟩ := Prod.mk.inj (Option.some.inj h)
    have htake : (left.take length).length = length := by
      rw [List.length_take]
      omega
    refine ⟨by omega, ?_⟩
    rw [htake, List.take_append_drop]
  · rintro ⟨hle, rfl⟩
    refine ⟨_, Clipboard.readUInt32_eq_some_iff.2 ⟨by omega, rfl⟩, ?_⟩
    dsimp only
    rw [if_neg (by rw [List.length_append]; omega), List.take_left, List.drop_left]

/-- The files that a screen can send. -/
def File.Valid (file : File) : Prop :=
  isPlainName file.name = true ∧ file.name.length ≤ maxNameLength ∧ file.size < 2 ^ 64 ∧
    file.modified < 2 ^ 64

theorem readFiles_eq_some_iff : readFiles n bytes = some (files, rest) ↔
    files.length = n ∧ (∀ file ∈ files, file.Valid) ∧
      bytes = files.flatMap File.marshall ++ rest := by
  induction n generalizing bytes files with
  | zero =>
    constructor
    · intro h
      obtain ⟨rfl, rfl⟩ := Prod.mk.inj (Option.some.inj h)
      exact ⟨rfl, nofun, rfl⟩
    · rintro ⟨hlength, -, rfl⟩
      rw [List.length_eq_zero_iff.1 hlength]
      rfl
  | succ n ih =>
    rw [readFiles, Option.bind_eq_bind, Option.bind_eq_some_iff]
    constructor
    · rintro ⟨⟨name, bytes₁⟩, hname, h₁⟩
      dsimp only at h₁
      split_ifs at h₁ with hplain
      obtain ⟨⟨size, bytes₂⟩, hsize, h₂⟩ := Option.bind_eq_some_iff.1 h₁
      obtain ⟨⟨modified, bytes₃⟩, hmodified, h₃⟩ := Option.bind_eq_some_iff.1 h₂
      obtain ⟨⟨files, bytes₄⟩, hfiles, h₄⟩ := Option.bind_eq_some_iff.1 h₃
      obtain ⟨rfl, rfl⟩ := Prod.mk.inj (Option.some.inj h₄)
      obtain ⟨hlength, rfl⟩ := (readString_eq_some_iff (by decide)).1 hname
      obtain ⟨hlt, rfl⟩ := readUInt64_eq_some_iff.1 hsize
      obtain ⟨hlt', rfl⟩ := readUInt64_eq_some_iff.1 hmodified
      obtain ⟨rfl, hvalid, rfl⟩ := ih.1 hfiles
      refine ⟨rfl, ?_, ?_⟩
      · exact List.forall_mem_cons.2 ⟨⟨by simpa using hplain, hlength, hlt, hlt'⟩, hvalid⟩
      · simp [File.marshall]
    · rintro ⟨hlength, hvalid, rfl⟩
      obtain ⟨file, files, rfl⟩ := List.exists_cons_of_length_eq_add_one hlength
      obtain ⟨⟨hplain, hname, hsize, hmodified⟩, hvalid⟩ := List.forall_mem_cons.1 hvalid
      have hrest : readFiles n (files.flatMap File.marshall ++ rest) = some (files, rest) :=
        ih.2 ⟨Nat.succ.inj hlength, hvalid, rfl⟩
      have hbytes : (file :: files).flatMap File.marshall ++ rest =
          writeString file.name ++ (writeUInt64 file.size ++ (writeUInt64 file.modified ++
            (files.flatMap File.marshall ++ rest))) := by
        simp [File.marshall]
      rw [hbytes]
      refine ⟨_, (readString_eq_some_iff (by decide)).2 ⟨hname, rfl⟩, ?_⟩
      dsimp only
      rw [hplain, Bool.not_true, if_neg Bool.false_ne_true,
        readUInt64_eq_some_iff.2 ⟨hsize, rfl⟩]
      dsimp only [Option.bind_eq_bind, Option.bind_some]
      rw [readUInt64_eq_some_iff.2 ⟨hmodified, rfl⟩]
      dsimp only [Option.bind_some]
      rw [hrest]
      rfl

/-- The clips that can be sent. -/
structure Valid (clip : FileClip) : Prop where
  id : clip.id ≠ [] ∧ clip.id.length ≤ maxIdLength
  files : clip.files ≠ [] ∧ clip.files.length ≤ maxFiles
  file : ∀ file ∈ clip.files, file.Valid

theorem unmarshall_eq_some_iff :
    unmarshall data = some clip ↔ clip.Valid ∧ clip.marshall = data := by
  unfold unmarshall
  constructor
  · intro h
    split_ifs at h with hmagic
    obtain ⟨⟨id, bytes₁⟩, hid, h₁⟩ := Option.bind_eq_some_iff.1 h
    dsimp only at h₁
    split_ifs at h₁ with hempty
    obtain ⟨⟨count, bytes₂⟩, hcount, h₂⟩ := Option.bind_eq_some_iff.1 h₁
    dsimp only at h₂
    split_ifs at h₂ with hrange
    obtain ⟨⟨files, bytes₃⟩, hfiles, h₃⟩ := Option.bind_eq_some_iff.1 h₂
    dsimp only at h₃
    split_ifs at h₃ with hend
    obtain rfl := Option.some.inj h₃
    obtain ⟨hlength, hdata⟩ := (readString_eq_some_iff (by decide)).1 hid
    obtain ⟨-, rfl⟩ := Clipboard.readUInt32_eq_some_iff.1 hcount
    obtain ⟨rfl, hvalid, rfl⟩ := readFiles_eq_some_iff.1 hfiles
    obtain ⟨hne, hle⟩ := not_or.1 hrange
    refine ⟨⟨⟨hempty, hlength⟩, ⟨?_, not_lt.1 hle⟩, hvalid⟩, ?_⟩
    · rintro rfl
      exact hne rfl
    · rw [marshall, ← List.take_append_drop magic.length data, not_not.1 hmagic, hdata, hend,
        List.append_nil]
  · rintro ⟨⟨⟨hempty, hid⟩, ⟨hne, hfiles⟩, hvalid⟩, rfl⟩
    have hcount : clip.files.length < 2 ^ 32 := hfiles.trans_lt (by decide)
    have hrange : ¬(clip.files.length = 0 ∨ clip.files.length > maxFiles) := by
      rw [List.length_eq_zero_iff]
      exact not_or.2 ⟨hne, not_lt.2 hfiles⟩
    have htake : clip.marshall.take magic.length = magic := List.take_left' rfl
    have hdrop : clip.marshall.drop magic.length = writeString clip.id ++
        (writeUInt32 clip.files.length ++ clip.files.flatMap File.marshall) := List.drop_left' rfl
    rw [if_neg (not_not.2 htake), hdrop, (readString_eq_some_iff (by decide)).2 ⟨hid, rfl⟩]
    dsimp only [Option.bind_eq_bind, Option.bind_some]
    rw [if_neg hempty, Clipboard.readUInt32_eq_some_iff.2 ⟨hcount, rfl⟩]
    dsimp only [Option.bind_some]
    rw [if_neg hrange, readFiles_eq_some_iff.2 ⟨rfl, hvalid, (List.append_nil _).symm⟩]
    rfl

/-- **What is accepted are the encodings of valid clips**, and no byte outside of the string is
read. -/
theorem unmarshallAt_iff :
    (∀ data, ∃ r, (unmarshallAt data).run = some r ∧
      ∀ clip, r = some clip ↔ clip.Valid ∧ clip.marshall = data) ∧
    ∀ clip : FileClip, clip.Valid → (unmarshallAt clip.marshall).run = some (some clip) := by
  refine ⟨fun data => ⟨_, unmarshallAt_run data, fun clip => unmarshall_eq_some_iff⟩, ?_⟩
  intro clip hvalid
  rw [unmarshallAt_run, unmarshall_eq_some_iff.2 ⟨hvalid, rfl⟩]

theorem unmarshallAt_file : (unmarshallAt (marshall ⟨[49], [⟨[102], 3, 4⟩]⟩)).run =
    some (some ⟨[49], [⟨[102], 3, 4⟩]⟩) := by
  refine unmarshallAt_iff.2 _ ⟨by decide, by decide, ?_⟩
  exact List.forall_mem_singleton.2 ⟨by decide, by decide, by decide, by decide⟩

end FileClip

end InputLeap
