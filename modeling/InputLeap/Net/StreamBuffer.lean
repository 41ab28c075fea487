import InputLeap.Protocol.Types
import Mathlib.Tactic.Set
import Mathlib.Tactic.SplitIfs

/-!
# The buffer of a stream

`StreamBuffer` is a FIFO of bytes kept in chunks; the first chunk may be partly discarded.

## Main definitions

* `StreamBuffer.contents` : the bytes in the buffer.
* `StreamBuffer.Ok` : the sizes that the buffer keeps are those of its contents.

## Main results

* `contents_write`, `peek_spec`, `pop_spec` : the operations on the contents.
* `Ok.write` : the sizes stay right while there are less than 2 ^ 32 bytes.
-/

namespace InputLeap

/-- FIFO of bytes. -/
structure StreamBuffer where
  chunks : List Bytes := []
  /-- Of type `uint32_t`. -/
  size : ℕ := 0
  /-- The bytes of the first chunk that are discarded.  Of type `uint32_t`. -/
  headUsed : ℕ := 0
  deriving DecidableEq

namespace StreamBuffer

/-- The size of a chunk (`kChunkSize`). -/
def chunkSize : ℕ := 4096

/-- Moves chunks into the first one until that has `n` bytes. -/
def consolidate (n headUsed : ℕ) : Bytes → List Bytes → List Bytes
  | head, [] => [head]
  | head, scan :: rest =>
    if head.length - headUsed < n then consolidate n headUsed (head ++ scan) rest
    else head :: scan :: rest

/-- The next `n` bytes, which are in the first chunk then. -/
def peek (b : StreamBuffer) (n : ℕ) : Bytes × StreamBuffer :=
  match n, b.chunks with
  | 0, _ => ([], b)
  | _, [] => ([], b)
  | n, head :: rest =>
    let chunks := consolidate n b.headUsed head rest
    (((chunks.headD []).drop b.headUsed).take n, { b with chunks := chunks })

/-- Discards whole chunks until at most the rest of one is left to discard. -/
def discard : List Bytes → ℕ → ℕ → List Bytes × ℕ
  | [], _, _ => ([], 0)
  | scan :: rest, headUsed, n =>
    if scan.length - headUsed ≤ n then discard rest 0 (n - (scan.length - headUsed))
    else (scan :: rest, headUsed + n)

/-- Discards the next `n` bytes. -/
def pop (b : StreamBuffer) (n : ℕ) : StreamBuffer :=
  if b.size ≤ n then {}
  else
    let (chunks, headUsed) := discard b.chunks b.headUsed n
    { chunks := chunks, size := b.size - n, headUsed := headUsed % 2 ^ 32 }

/-- Appends data to the chunk `scan` and to further ones, in at most `fuel` steps. -/
def append : ℕ → Bytes → Bytes → List Bytes
  | 0, scan, _ => [scan]
  | fuel + 1, scan, data =>
    let count := min (chunkSize - scan.length) data.length
    let scan := scan ++ data.take count
    let data := data.drop count
    if data.length > 0 then scan :: append fuel [] data else [scan]

/-- The chunks after data is appended: the last one takes what it has space for. -/
def writeChunks (chunks : List Bytes) (data : Bytes) : List Bytes :=
  match chunks.getLast? with
  | none => append (data.length + 1) [] data
  | some scan =>
    if scan.length ≥ chunkSize then chunks ++ append (data.length + 1) [] data
    else chunks.dropLast ++ append (data.length + 1) scan data

/-- Appends data. -/
def write (b : StreamBuffer) (data : Bytes) : StreamBuffer :=
  if data.length = 0 then b
  else
    { b with
      chunks := writeChunks b.chunks data
      size := (b.size + data.length) % 2 ^ 32 }

/-! ### Contents -/

/-- The bytes in the buffer. -/
def contents (b : StreamBuffer) : Bytes := b.chunks.flatten.drop b.headUsed

/-- The buffer has the size that it keeps, and discarded bytes are those of its first chunk. -/
structure Ok (b : StreamBuffer) : Prop where
  size : b.size = b.contents.length
  bound : b.contents.length < 2 ^ 32
  head : ∀ c ∈ b.chunks.head?, b.headUsed ≤ c.length
  empty : b.chunks = [] → b.headUsed = 0

/-- The position in its chunk of the byte with an index. -/
def offset : List Bytes → ℕ → ℕ
  | [], _ => 0
  | c :: rest, i => if i < c.length then i else offset rest (i - c.length)

/-- When `n` bytes are discarded, those of the first chunk that is left can be counted. -/
def Counts (b : StreamBuffer) (n : ℕ) : Prop := offset b.chunks (b.headUsed + n) < 2 ^ 32

instance (b : StreamBuffer) (n : ℕ) : Decidable (b.Counts n) := inferInstanceAs (Decidable (_ < _))

variable {b : StreamBuffer} {data : Bytes} {n : ℕ}

theorem ok_empty : Ok {} := ⟨rfl, by decide, fun _ hc => (by cases hc), fun _ => rfl⟩

theorem flatten_append {fuel : ℕ} {scan : Bytes} (hfuel : data.length < fuel)
    (hscan : scan.length < chunkSize) : (append fuel scan data).flatten = scan ++ data := by
  induction fuel generalizing scan data with
  | zero => omega
  | succ fuel ih =>
    simp only [append]
    set count := min (chunkSize - scan.length) data.length
    have hlen : (data.drop count).length = data.length - count := List.length_drop
    split_ifs with hmore
    · rw [List.flatten_cons, ih (by omega) (by decide), List.nil_append, List.append_assoc,
        List.take_append_drop]
    · have hnone : data.drop count = [] := List.length_eq_zero_iff.1 (by omega)
      have htake := List.take_append_drop count data
      rw [hnone, List.append_nil] at htake
      rw [List.flatten_cons, htake, List.flatten_nil, List.append_nil]

theorem append_ne_nil (fuel : ℕ) (scan data : Bytes) : append fuel scan data ≠ [] := by
  cases fuel with
  | zero => exact List.cons_ne_nil _ _
  | succ fuel =>
    simp only [append]
    split_ifs
    · exact List.cons_ne_nil _ _
    · exact List.cons_ne_nil _ _

/-- The first chunk only grows. -/
theorem length_head_append {fuel : ℕ} {scan : Bytes} :
    ∀ c ∈ (append fuel scan data).head?, scan.length ≤ c.length := by
  intro c hc
  have hgrown (count : ℕ) : scan.length ≤ (scan ++ data.take count).length := by
    rw [List.length_append]
    exact Nat.le_add_right ..
  cases fuel with
  | zero =>
    cases hc
    exact Nat.le_refl _
  | succ fuel =>
    simp only [append] at hc
    split_ifs at hc
    · cases hc
      exact hgrown _
    · cases hc
      exact hgrown _

theorem flatten_writeChunks (chunks : List Bytes) (data : Bytes) :
    (writeChunks chunks data).flatten = chunks.flatten ++ data := by
  have hnew : (append (data.length + 1) [] data).flatten = data :=
    flatten_append (by omega) (by decide)
  unfold writeChunks
  cases hlast : chunks.getLast? with
  | none =>
    rw [List.getLast?_eq_none_iff.1 hlast]
    exact hnew
  | some scan =>
    obtain ⟨front, rfl⟩ := List.getLast?_eq_some_iff.1 hlast
    dsimp only
    split_ifs with hfull
    · rw [List.flatten_append, hnew]
    · rw [List.flatten_append, flatten_append (by omega) (by omega), ← List.append_assoc,
        List.dropLast_concat, List.flatten_append, List.flatten_singleton]

theorem head_writeChunks (chunks : List Bytes) (data : Bytes) :
    writeChunks chunks data ≠ [] ∧
      ∀ c ∈ (writeChunks chunks data).head?, ∀ c' ∈ chunks.head?, c'.length ≤ c.length := by
  unfold writeChunks
  cases hlast : chunks.getLast? with
  | none =>
    refine ⟨append_ne_nil _ _ _, fun c _ c' hc' => ?_⟩
    rw [List.getLast?_eq_none_iff.1 hlast] at hc'
    cases hc'
  | some scan =>
    obtain ⟨front, rfl⟩ := List.getLast?_eq_some_iff.1 hlast
    rw [List.dropLast_concat]
    refine ⟨?_, fun c hc c' hc' => ?_⟩
    · dsimp only
      split_ifs
      · simp
      · exact List.append_ne_nil_of_right_ne_nil _ (append_ne_nil _ _ _)
    · cases front with
      | nil =>
        cases hc'
        dsimp only at hc
        split_ifs at hc
        · cases hc
          exact Nat.le_refl _
        · exact length_head_append c hc
      | cons first front =>
        cases hc'
        dsimp only at hc
        split_ifs at hc
        · cases hc
          exact Nat.le_refl _
        · cases hc
          exact Nat.le_refl _

theorem Ok.headUsed_le (h : Ok b) : b.headUsed ≤ b.chunks.flatten.length := by
  cases hchunks : b.chunks with
  | nil =>
    rw [h.empty hchunks]
    exact Nat.zero_le _
  | cons c rest =>
    have hc := h.head c (by rw [hchunks]; rfl)
    rw [List.flatten_cons, List.length_append]
    omega

theorem contents_write (h : Ok b) (data : Bytes) :
    (b.write data).contents = b.contents ++ data := by
  unfold write
  split_ifs with hdata
  · rw [List.length_eq_zero_iff.1 hdata, List.append_nil]
  · simp only [contents, flatten_writeChunks, List.drop_append_of_le_length h.headUsed_le]

/-- There is space for the sizes that the buffer keeps. -/
theorem Ok.write (h : Ok b) (hfits : b.contents.length + data.length < 2 ^ 32) :
    Ok (b.write data) := by
  have hlength : (b.write data).contents.length = b.contents.length + data.length := by
    rw [contents_write h, List.length_append]
  unfold StreamBuffer.write at hlength ⊢
  split_ifs at hlength ⊢ with hdata
  · exact h
  · obtain ⟨hne, hhead⟩ := head_writeChunks b.chunks data
    refine ⟨?_, by omega, fun c hc => ?_, fun hnil => absurd hnil hne⟩
    · rw [hlength, h.size]
      exact Nat.mod_eq_of_lt hfits
    · cases hchunks : b.chunks with
      | nil =>
        show b.headUsed ≤ c.length
        rw [h.empty hchunks]
        exact Nat.zero_le _
      | cons c' rest =>
        have hc' : c' ∈ b.chunks.head? := by rw [hchunks]; rfl
        exact Nat.le_trans (h.head c' hc') (hhead c hc c' hc')

/-! ### Reading -/

theorem flatten_consolidate (n headUsed : ℕ) (head : Bytes) (rest : List Bytes) :
    (consolidate n headUsed head rest).flatten = head ++ rest.flatten := by
  induction rest generalizing head with
  | nil => simp [consolidate]
  | cons scan rest ih =>
    simp only [consolidate]
    split_ifs
    · rw [ih, List.flatten_cons, List.append_assoc]
    · rfl

/-- The first chunk has `n` bytes then, if there are as many. -/
theorem head_consolidate (n headUsed : ℕ) (head : Bytes) (rest : List Bytes)
    (hused : headUsed ≤ head.length) (hn : n + headUsed ≤ (head ++ rest.flatten).length) :
    ∃ c tail, consolidate n headUsed head rest = c :: tail ∧ headUsed ≤ c.length ∧
      n + headUsed ≤ c.length := by
  induction rest generalizing head with
  | nil =>
    rw [List.flatten_nil, List.append_nil] at hn
    exact ⟨head, [], rfl, hused, hn⟩
  | cons scan rest ih =>
    simp only [consolidate]
    split_ifs with hmore
    · refine ih (head ++ scan) ?_ ?_
      · rw [List.length_append]
        omega
      · rwa [List.append_assoc, ← List.flatten_cons]
    · exact ⟨head, scan :: rest, rfl, hused, by omega⟩

/-- **Peeking** gives the first bytes and leaves the contents alone. -/
theorem peek_spec (h : Ok b) (hn : n ≤ b.contents.length) :
    (b.peek n).1 = b.contents.take n ∧ (b.peek n).2.contents = b.contents ∧ Ok (b.peek n).2 := by
  cases n with
  | zero => exact ⟨rfl, rfl, h⟩
  | succ n =>
    cases hchunks : b.chunks with
    | nil => simp [contents, hchunks] at hn
    | cons head rest =>
      have hused := h.head head (by rw [hchunks]; rfl)
      have hlength : b.contents.length = (head ++ rest.flatten).length - b.headUsed := by
        simp only [contents, hchunks, List.flatten_cons, List.length_drop]
      obtain ⟨c, tail, heq, hc, hnc⟩ :=
        head_consolidate (n + 1) b.headUsed head rest hused (by omega)
      have hflatten := flatten_consolidate (n + 1) b.headUsed head rest
      rw [heq, List.flatten_cons] at hflatten
      have hpeek : b.peek (n + 1) =
          ((c.drop b.headUsed).take (n + 1), { b with chunks := c :: tail }) := by
        simp only [peek, hchunks, heq, List.headD_cons]
      have hcontents : contents { b with chunks := c :: tail } = b.contents := by
        simp only [contents, hchunks, List.flatten_cons, hflatten]
      rw [hpeek]
      refine ⟨?_, hcontents, ⟨?_, ?_, fun c' hc' => ?_, fun hnil => by cases hnil⟩⟩
      · have htake : (c.drop b.headUsed ++ tail.flatten).take (n + 1) =
            (c.drop b.headUsed).take (n + 1) :=
          List.take_append_of_le_length (by rw [List.length_drop]; omega)
        rw [← htake, ← hcontents, contents, List.flatten_cons, List.drop_append_of_le_length hc]
      · rw [hcontents]
        exact h.size
      · rw [hcontents]
        exact h.bound
      · cases hc'
        exact hc

theorem discard_spec (chunks : List Bytes) (headUsed n : ℕ)
    (hused : ∀ c ∈ chunks.head?, headUsed ≤ c.length) (hn : headUsed + n < chunks.flatten.length) :
    (discard chunks headUsed n).1.flatten.drop (discard chunks headUsed n).2 =
        chunks.flatten.drop (headUsed + n) ∧
      (∀ c ∈ (discard chunks headUsed n).1.head?, (discard chunks headUsed n).2 ≤ c.length) ∧
      (discard chunks headUsed n).1 ≠ [] := by
  induction chunks generalizing headUsed n with
  | nil => simp at hn
  | cons scan rest ih =>
    have hscan := hused scan rfl
    rw [List.flatten_cons, List.length_append] at hn
    simp only [discard]
    split_ifs with hwhole
    · obtain ⟨hdrop, hhead, hne⟩ := ih 0 (n - (scan.length - headUsed))
        (fun _ _ => Nat.zero_le _) (by omega)
      refine ⟨?_, hhead, hne⟩
      rw [hdrop, List.flatten_cons, List.drop_append,
        List.drop_of_length_le (by omega : scan.length ≤ headUsed + n), List.nil_append]
      congr 1
      omega
    · refine ⟨rfl, fun c hc => ?_, List.cons_ne_nil _ _⟩
      cases hc
      show headUsed + n ≤ scan.length
      omega

/-- What is discarded of the chunk that is left. -/
theorem discard_used (chunks : List Bytes) (headUsed n : ℕ)
    (hused : ∀ c ∈ chunks.head?, headUsed ≤ c.length) :
    (discard chunks headUsed n).2 = offset chunks (headUsed + n) := by
  induction chunks generalizing headUsed n with
  | nil => rfl
  | cons scan rest ih =>
    have hscan := hused scan rfl
    simp only [discard, offset]
    by_cases hwhole : scan.length - headUsed ≤ n
    · rw [if_pos hwhole, if_neg (by omega), ih 0 _ fun _ _ => Nat.zero_le _]
      congr 1
      omega
    · rw [if_neg hwhole, if_pos (by omega)]

theorem offset_lt {chunks : List Bytes} {m : ℕ} (hpos : 0 < m) (h : chunks.flatten.length ≤ m)
    (i : ℕ) : offset chunks i < m := by
  induction chunks generalizing i with
  | nil => exact hpos
  | cons c rest ih =>
    rw [List.flatten_cons, List.length_append] at h
    rw [offset]
    split_ifs with hi
    · omega
    · exact ih (by omega) _

/-- **Popping** discards the first bytes. -/
theorem pop_spec (h : Ok b) (hcounts : b.Counts n) :
    (b.pop n).contents = b.contents.drop n ∧ Ok (b.pop n) := by
  unfold pop
  split_ifs with hall
  · refine ⟨?_, ok_empty⟩
    rw [List.drop_of_length_le (by rw [← h.size]; exact hall)]
    rfl
  · have hlength : b.contents.length = b.chunks.flatten.length - b.headUsed := List.length_drop
    have hsize := h.size
    obtain ⟨hdrop, hhead, hne⟩ := discard_spec b.chunks b.headUsed n h.head (by omega)
    have hused : (discard b.chunks b.headUsed n).2 % 2 ^ 32 =
        (discard b.chunks b.headUsed n).2 := by
      rw [discard_used _ _ _ h.head]
      exact Nat.mod_eq_of_lt hcounts
    dsimp only
    rw [hused]
    have hcontents : contents ⟨(discard b.chunks b.headUsed n).1, b.size - n,
        (discard b.chunks b.headUsed n).2⟩ = b.contents.drop n := by
      simp only [contents, hdrop, List.drop_drop]
    refine ⟨hcontents, ⟨?_, ?_, hhead, fun hnil => absurd hnil hne⟩⟩
    · rw [hcontents, List.length_drop, hsize]
    · rw [hcontents, List.length_drop]
      have := h.bound
      omega

/-! ### Bytes that are held -/

/-- The number of bytes in the chunks, with those of the first chunk that are discarded. -/
def held (b : StreamBuffer) : ℕ := b.chunks.flatten.length

/-- Few bytes can be counted, whatever is discarded. -/
theorem counts_of_held (h : b.held ≤ 2 ^ 32) (n : ℕ) : b.Counts n := offset_lt (by decide) h _

theorem held_write (b : StreamBuffer) (data : Bytes) :
    (b.write data).held = b.held + data.length := by
  unfold held write
  split_ifs with hdata
  · rw [hdata, Nat.add_zero]
  · rw [flatten_writeChunks, List.length_append]

theorem held_peek (b : StreamBuffer) (n : ℕ) : (b.peek n).2.held = b.held := by
  unfold held
  cases n with
  | zero => rfl
  | succ n =>
    cases hchunks : b.chunks with
    | nil => simp only [peek, hchunks]
    | cons head rest => simp only [peek, hchunks, flatten_consolidate, List.flatten_cons]

theorem length_discard_le (chunks : List Bytes) (headUsed n : ℕ) :
    (discard chunks headUsed n).1.flatten.length ≤ chunks.flatten.length := by
  induction chunks generalizing headUsed n with
  | nil => exact Nat.le_refl _
  | cons scan rest ih =>
    simp only [discard]
    split_ifs
    · rw [List.flatten_cons, List.length_append]
      exact Nat.le_add_left_of_le (ih _ _)
    · exact Nat.le_refl _

theorem held_pop_le (b : StreamBuffer) (n : ℕ) : (b.pop n).held ≤ b.held := by
  unfold held pop
  split_ifs
  · exact Nat.zero_le _
  · exact length_discard_le _ _ _

end StreamBuffer

end InputLeap
