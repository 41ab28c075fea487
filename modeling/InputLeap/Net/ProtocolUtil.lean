import InputLeap.Net.BigEndian
import Mathlib.Tactic.Set
import Mathlib.Tactic.SplitIfs

/-!
# Reading messages

`ProtocolUtil::readf` reads the fields of a format from a stream.  What a read of a stream returns
is a parameter here; the functions are used with the reads of a packet filter, of a list of
packets and of plain bytes.

## Main definitions

* `ProtocolUtil.fields` : the fields of a format.
* `ProtocolUtil.read`, `vreadf`, `readf` : reading them.
* `Reading.Sim` : two ways to read that give the same values.
* `Reading.Local` : what is read depends on the bytes that are taken only, unless they run out.

## Main results

* `sim_vreadf` : reading a format simulates if reading bytes does.
* `local_vreadf` : reading a format from plain bytes is local.
* `readf_append`, `length_readf_append` : fields with and without all their bytes.
-/

namespace InputLeap

/-- Why reading failed. -/
inductive ReadError
  /-- `XIOEndOfStream`. -/
  | endOfStream
  /-- `XIOReadMismatch`. -/
  | mismatch
  /-- `XBadClient`. -/
  | badClient
  deriving DecidableEq

/-- Reading from a stream whose states are `σ`. -/
abbrev Reading (σ α : Type) := σ → Except ReadError α × σ

namespace Reading

variable {σ τ α β : Type}

/-- Reads nothing. -/
def pure (a : α) : Reading σ α := fun s => (.ok a, s)

/-- Fails. -/
def throw (e : ReadError) : Reading σ α := fun s => (.error e, s)

/-- Goes on with what was read. -/
def bind (m : Reading σ α) (f : α → Reading σ β) : Reading σ β := fun s =>
  match m s with
  | (.ok a, s) => f a s
  | (.error e, s) => (.error e, s)

theorem bind_ok {m : Reading σ α} {a : α} {s s' : σ} (h : m s = (.ok a, s'))
    (f : α → Reading σ β) : bind m f s = f a s' := by
  rw [bind, h]

theorem bind_error {m : Reading σ α} {e : ReadError} {s s' : σ} (h : m s = (.error e, s'))
    (f : α → Reading σ β) : bind m f s = (.error e, s') := by
  rw [bind, h]

end Reading

namespace ProtocolUtil

open Reading (pure throw bind)

/-- `PROTOCOL_MAX_LIST_LENGTH`. -/
def maxListLength : ℕ := 1024 * 1024

/-- `PROTOCOL_MAX_STRING_LENGTH`. -/
def maxStringLength : ℕ := 1024 * 1024

/-- What a format asks for. -/
inductive Field
  /-- `%1i`, `%2i` or `%4i`. -/
  | int (len : ℕ)
  /-- `%1I`, `%2I` or `%4I`. -/
  | ints (len : ℕ)
  /-- `%s`. -/
  | string
  /-- `%%`, for which `vreadf` reads nothing. -/
  | percent
  | char (c : Char)
  deriving DecidableEq

/-- The value that was read for a field. -/
inductive Value
  | int (v : ℕ)
  | ints (vs : List ℕ)
  | string (s : Bytes)
  deriving DecidableEq

/-- The field after a `%` and a length. -/
def specifier (len : ℕ) : Char → Field
  | 'i' => .int len
  | 'I' => .ints len
  | 's' => .string
  | _ => .percent

/-- The fields of a format; `some len` is the length read so far after a `%`. -/
def scan : Option ℕ → List Char → List Field
  | _, [] => []
  | none, c :: fmt => if c = '%' then scan (some 0) fmt else .char c :: scan none fmt
  | some len, c :: fmt =>
    if c.isDigit then scan (some (10 * len + (c.toNat - 48))) fmt
    else specifier len c :: scan none fmt

/-- The fields of a format. -/
def fields (fmt : String) : List Field := scan none fmt.toList

/-! ### Reading -/

variable {σ τ : Type}

/-- The loop of `read`: the stream is read until `count` bytes are there or it has nothing. -/
def readLoop (rd : σ → ℕ → Bytes × σ) : ℕ → ℕ → Bytes → Reading σ Bytes
  | 0, _, buffer => pure buffer
  | fuel + 1, count, buffer => fun s =>
    if count = 0 then (.ok buffer, s)
    else
      let (data, s) := rd s count
      if data = [] then (.error .endOfStream, s)
      else readLoop rd fuel (count - data.length) (buffer ++ data) s

theorem readLoop_zero (rd : σ → ℕ → Bytes × σ) (fuel : ℕ) (buffer : Bytes) (s : σ) :
    readLoop rd (fuel + 1) 0 buffer s = (.ok buffer, s) := rfl

theorem readLoop_of_nil {rd : σ → ℕ → Bytes × σ} {count : ℕ} {s : σ} (hcount : count ≠ 0)
    (hdata : (rd s count).1 = []) (fuel : ℕ) (buffer : Bytes) :
    readLoop rd (fuel + 1) count buffer s = (.error .endOfStream, (rd s count).2) := by
  simp only [readLoop, if_neg hcount, if_pos hdata]

theorem readLoop_of_ne_nil {rd : σ → ℕ → Bytes × σ} {count : ℕ} {s : σ} (hcount : count ≠ 0)
    (hdata : (rd s count).1 ≠ []) (fuel : ℕ) (buffer : Bytes) :
    readLoop rd (fuel + 1) count buffer s =
      readLoop rd fuel (count - (rd s count).1.length) (buffer ++ (rd s count).1)
        (rd s count).2 := by
  simp only [readLoop, if_neg hcount, if_neg hdata]

/-- Reads `count` bytes. -/
def read (rd : σ → ℕ → Bytes × σ) (count : ℕ) : Reading σ Bytes := readLoop rd (count + 1) count []

variable (read : ℕ → Reading σ Bytes)

/-- Reads a number of `len` bytes. -/
def readNumber (len : ℕ) : Reading σ ℕ :=
  bind (read len) fun bytes => pure (BigEndian.ofBytes bytes)

/-- Reads `n` numbers of `len` bytes. -/
def readNumbers (len : ℕ) : ℕ → Reading σ (List ℕ)
  | 0 => pure []
  | n + 1 => bind (readNumber read len) fun v => bind (readNumbers len n) fun vs => pure (v :: vs)

/-- Reads a field. -/
def readField : Field → Reading σ (List Value)
  | .int len => bind (readNumber read len) fun v => pure [.int v]
  | .ints len =>
    bind (readNumber read 4) fun n =>
      if maxListLength < n then throw .badClient
      else bind (readNumbers read len n) fun vs => pure [.ints vs]
  | .string =>
    bind (readNumber read 4) fun len =>
      if maxStringLength < len then throw .badClient
      else bind (read len) fun s => pure [.string s]
  | .percent => pure []
  | .char c =>
    bind (read 1) fun bytes =>
      if bytes = [UInt8.ofNat c.toNat] then pure [] else throw .mismatch

/-- Reads the fields of a format. -/
def vreadf : List Field → Reading σ (List Value)
  | [] => pure []
  | f :: fs => bind (readField read f) fun v => bind (vreadf fs) fun vs => pure (v ++ vs)

/-- Reads the fields of a format; `none` if the stream does not have them.  Lengths over the
limits are passed on as an error. -/
def readf (fs : List Field) : Reading σ (Option (List Value)) := fun s =>
  match vreadf read fs s with
  | (.ok vs, s) => (.ok (some vs), s)
  | (.error .badClient, s) => (.error .badClient, s)
  | (.error _, s) => (.ok none, s)

end ProtocolUtil

/-! ### Simulation -/

namespace Reading

variable {σ τ α β : Type}

/-- From related states both give the same and end in related states. -/
def Sim (R : σ → τ → Prop) (m : Reading σ α) (m' : Reading τ α) : Prop :=
  ∀ s t, R s t → (m s).1 = (m' t).1 ∧ R (m s).2 (m' t).2

namespace Sim

variable {R : σ → τ → Prop}

theorem pure (a : α) : Sim R (Reading.pure a) (Reading.pure a) := fun _ _ h => ⟨rfl, h⟩

theorem throw (e : ReadError) :
    Sim R (Reading.throw e : Reading σ α) (Reading.throw e : Reading τ α) :=
  fun _ _ h => ⟨rfl, h⟩

theorem bind {m : Reading σ α} {m' : Reading τ α} {f : α → Reading σ β} {f' : α → Reading τ β}
    (hm : Sim R m m') (hf : ∀ a, Sim R (f a) (f' a)) :
    Sim R (Reading.bind m f) (Reading.bind m' f') := by
  intro s t h
  obtain ⟨hval, hstate⟩ := hm s t h
  simp only [Reading.bind]
  rcases hs : m s with ⟨r, s'⟩
  rcases ht : m' t with ⟨r', t'⟩
  rw [hs, ht] at hval hstate
  obtain rfl : r = r' := hval
  cases r with
  | ok a => exact hf a s' t' hstate
  | error e => exact ⟨rfl, hstate⟩

theorem ite {c : Prop} [Decidable c] {m₁ m₂ : Reading σ α} {m₁' m₂' : Reading τ α}
    (h₁ : Sim R m₁ m₁') (h₂ : Sim R m₂ m₂') :
    Sim R (if c then m₁ else m₂) (if c then m₁' else m₂') := by
  split_ifs
  · exact h₁
  · exact h₂

end Sim

end Reading

namespace ProtocolUtil

open Reading (Sim)

variable {σ τ : Type} {R : σ → τ → Prop} {read : ℕ → Reading σ Bytes} {read' : ℕ → Reading τ Bytes}

/-- Reads in related states give the same and end in related states. -/
def SameReads (R : σ → τ → Prop) (rd : σ → ℕ → Bytes × σ) (rd' : τ → ℕ → Bytes × τ) : Prop :=
  ∀ s t, R s t → ∀ n, (rd s n).1 = (rd' t n).1 ∧ R (rd s n).2 (rd' t n).2

theorem sim_readLoop {rd : σ → ℕ → Bytes × σ} {rd' : τ → ℕ → Bytes × τ}
    (h : SameReads R rd rd') (fuel count : ℕ) (buffer : Bytes) :
    Sim R (readLoop rd fuel count buffer) (readLoop rd' fuel count buffer) := by
  induction fuel generalizing count buffer with
  | zero => exact .pure _
  | succ fuel ih =>
    intro s t hst
    by_cases hcount : count = 0
    · subst hcount
      exact ⟨rfl, hst⟩
    obtain ⟨hdata, hnext⟩ := h s t hst count
    by_cases hnil : (rd s count).1 = []
    · rw [readLoop_of_nil hcount hnil, readLoop_of_nil hcount (hdata ▸ hnil)]
      exact ⟨rfl, hnext⟩
    · rw [readLoop_of_ne_nil hcount hnil, readLoop_of_ne_nil hcount (hdata ▸ hnil), ← hdata]
      exact ih _ _ _ _ hnext

theorem sim_read {rd : σ → ℕ → Bytes × σ} {rd' : τ → ℕ → Bytes × τ}
    (h : SameReads R rd rd') (n : ℕ) : Sim R (ProtocolUtil.read rd n) (ProtocolUtil.read rd' n) :=
  sim_readLoop h _ _ _

theorem sim_readNumber (h : ∀ n, Sim R (read n) (read' n)) (len : ℕ) :
    Sim R (readNumber read len) (readNumber read' len) := (h len).bind fun _ => .pure _

theorem sim_readNumbers (h : ∀ n, Sim R (read n) (read' n)) (len n : ℕ) :
    Sim R (readNumbers read len n) (readNumbers read' len n) := by
  induction n with
  | zero => exact .pure _
  | succ n ih => exact (sim_readNumber h len).bind fun _ => ih.bind fun _ => .pure _

theorem sim_readField (h : ∀ n, Sim R (read n) (read' n)) (f : Field) :
    Sim R (readField read f) (readField read' f) := by
  cases f with
  | int len => exact (sim_readNumber h len).bind fun _ => .pure _
  | ints len =>
    exact (sim_readNumber h 4).bind fun n =>
      .ite (.throw _) ((sim_readNumbers h len n).bind fun _ => .pure _)
  | string =>
    exact (sim_readNumber h 4).bind fun len => .ite (.throw _) ((h len).bind fun _ => .pure _)
  | percent => exact .pure _
  | char c => exact (h 1).bind fun _ => .ite (.pure _) (.throw _)

/-- **Reading a format simulates** if reading bytes does. -/
theorem sim_vreadf (h : ∀ n, Sim R (read n) (read' n)) (fs : List Field) :
    Sim R (vreadf read fs) (vreadf read' fs) := by
  induction fs with
  | nil => exact .pure _
  | cons f fs ih => exact (sim_readField h f).bind fun _ => ih.bind fun _ => .pure _

theorem sim_readf (h : ∀ n, Sim R (read n) (read' n)) (fs : List Field) :
    Sim R (readf read fs) (readf read' fs) := by
  intro s t hst
  obtain ⟨hval, hstate⟩ := sim_vreadf h fs s t hst
  simp only [readf]
  rcases hs : vreadf read fs s with ⟨r, s'⟩
  rcases ht : vreadf read' fs t with ⟨r', t'⟩
  rw [hs, ht] at hval hstate
  obtain rfl : r = r' := hval
  cases r with
  | ok vs => exact ⟨rfl, hstate⟩
  | error e => cases e <;> exact ⟨rfl, hstate⟩

end ProtocolUtil

/-! ### Locality -/

namespace Reading

variable {α β : Type}

/-- Reads `n` of the bytes. -/
def take (n : ℕ) : Reading Bytes Bytes := fun bytes =>
  if bytes.length < n then (.error .endOfStream, []) else (.ok (bytes.take n), bytes.drop n)

/-- What is read depends on the bytes that are taken only; if they run out, reading goes on with
those behind. -/
structure Local (m : Reading Bytes α) : Prop where
  suffix : ∀ bytes, (m bytes).2 <:+ bytes
  extend : ∀ bytes more, (m bytes).1 ≠ .error .endOfStream →
    m (bytes ++ more) = ((m bytes).1, (m bytes).2 ++ more)
  cross : ∀ bytes more, (m bytes).1 = .error .endOfStream → more ≠ [] →
    (m (bytes ++ more)).2.length < more.length

namespace Local

theorem pure (a : α) : Local (Reading.pure a) :=
  ⟨fun _ => List.suffix_refl _, fun _ _ _ => rfl, fun _ _ h => by cases h⟩

theorem throw {e : ReadError} (he : e ≠ .endOfStream) :
    Local (Reading.throw e : Reading Bytes α) := by
  refine ⟨fun _ => List.suffix_refl _, fun _ _ _ => rfl, fun _ _ h => ?_⟩
  exact absurd (Except.error.inj h) he

theorem take (n : ℕ) : Local (Reading.take n) := by
  refine ⟨fun bytes => ?_, fun bytes more h => ?_, fun bytes more h hmore => ?_⟩
  · unfold Reading.take
    split_ifs
    · exact List.nil_suffix
    · exact List.drop_suffix n bytes
  · unfold Reading.take at h ⊢
    split_ifs at h with hshort
    · exact absurd rfl h
    · rw [List.length_append, if_neg (by omega), if_neg hshort,
        List.take_append_of_le_length (by omega), List.drop_append_of_le_length (by omega)]
  · unfold Reading.take at h ⊢
    split_ifs at h with hshort
    have hpos := List.length_pos_iff.2 hmore
    split_ifs with hboth
    · exact hpos
    · rw [List.length_append] at hboth
      show ((bytes ++ more).drop n).length < more.length
      rw [List.length_drop, List.length_append]
      omega

theorem bind {m : Reading Bytes α} {f : α → Reading Bytes β} (hm : Local m)
    (hf : ∀ a, Local (f a)) : Local (Reading.bind m f) := by
  refine ⟨fun bytes => ?_, fun bytes more h => ?_, fun bytes more h hmore => ?_⟩
  · have hsuffix := hm.suffix bytes
    rcases hs : m bytes with ⟨e | a, rest⟩
    · rw [bind_error hs]
      rwa [hs] at hsuffix
    · rw [bind_ok hs]
      rw [hs] at hsuffix
      exact ((hf a).suffix rest).trans hsuffix
  · have hextend := hm.extend bytes more
    rcases hs : m bytes with ⟨e | a, rest⟩
    · rw [bind_error hs] at h ⊢
      rw [hs] at hextend
      exact bind_error (hextend fun hend => h (congrArg _ (Except.error.inj hend))) f
    · rw [bind_ok hs] at h ⊢
      rw [hs] at hextend
      rw [bind_ok (hextend nofun)]
      exact (hf a).extend rest more h
  · have hcross := hm.cross bytes more
    rcases hs : m bytes with ⟨e | a, rest⟩
    · rw [bind_error hs] at h
      rw [hs] at hcross
      -- The rest of the reading takes nothing back.
      refine Nat.lt_of_le_of_lt ?_ (hcross (congrArg _ (Except.error.inj h)) hmore)
      rcases hs' : m (bytes ++ more) with ⟨e' | a, rest'⟩
      · rw [bind_error hs']
      · rw [bind_ok hs']
        exact ((hf a).suffix rest').length_le
    · have hextend := hm.extend bytes more
      rw [bind_ok hs] at h
      rw [hs] at hextend
      rw [bind_ok (hextend nofun)]
      exact (hf a).cross rest more h hmore

theorem ite {c : Prop} [Decidable c] {m₁ m₂ : Reading Bytes α} (h₁ : Local m₁) (h₂ : Local m₂) :
    Local (if c then m₁ else m₂) := by
  split_ifs
  · exact h₁
  · exact h₂

end Local

end Reading

namespace ProtocolUtil

open Reading (Local)

theorem local_readNumber (len : ℕ) : Local (readNumber Reading.take len) :=
  (Local.take len).bind fun _ => .pure _

theorem local_readNumbers (len n : ℕ) : Local (readNumbers Reading.take len n) := by
  induction n with
  | zero => exact .pure _
  | succ n ih => exact (local_readNumber len).bind fun _ => ih.bind fun _ => .pure _

theorem local_readField (f : Field) : Local (readField Reading.take f) := by
  cases f with
  | int len => exact (local_readNumber len).bind fun _ => .pure _
  | ints len =>
    exact (local_readNumber 4).bind fun n =>
      .ite (.throw nofun) ((local_readNumbers len n).bind fun _ => .pure _)
  | string =>
    exact (local_readNumber 4).bind fun len =>
      .ite (.throw nofun) ((Local.take len).bind fun _ => .pure _)
  | percent => exact .pure _
  | char c => exact (Local.take 1).bind fun _ => .ite (.pure _) (.throw nofun)

/-- **Reading a format from plain bytes is local.** -/
theorem local_vreadf (fs : List Field) : Local (vreadf Reading.take fs) := by
  induction fs with
  | nil => exact .pure _
  | cons f fs ih => exact (local_readField f).bind fun _ => ih.bind fun _ => .pure _

variable (fs : List Field)

/-- Reading the fields stops where the values do. -/
theorem readf_snd {σ : Type} (read : ℕ → Reading σ Bytes) (s : σ) :
    (readf read fs s).2 = (vreadf read fs s).2 := by
  unfold readf
  rcases vreadf read fs s with ⟨e | vs, s'⟩
  · cases e <;> rfl
  · rfl

theorem suffix_readf (bytes : Bytes) : (readf Reading.take fs bytes).2 <:+ bytes := by
  rw [readf_snd]
  exact (local_vreadf fs).suffix bytes

/-- Fields that are in the bytes are read from them only. -/
theorem readf_append {bytes : Bytes}
    (h : (vreadf Reading.take fs bytes).1 ≠ .error .endOfStream) (more : Bytes) :
    readf Reading.take fs (bytes ++ more) =
      ((readf Reading.take fs bytes).1, (readf Reading.take fs bytes).2 ++ more) := by
  have hextend := (local_vreadf fs).extend bytes more h
  unfold readf
  rw [hextend]
  rcases vreadf Reading.take fs bytes with ⟨e | vs, rest⟩
  · cases e <;> rfl
  · rfl

/-- Fields that are not are read from the bytes behind. -/
theorem length_readf_append {bytes more : Bytes}
    (h : (vreadf Reading.take fs bytes).1 = .error .endOfStream) (hmore : more ≠ []) :
    (readf Reading.take fs (bytes ++ more)).2.length < more.length := by
  rw [readf_snd]
  exact (local_vreadf fs).cross bytes more h hmore

end ProtocolUtil

end InputLeap
