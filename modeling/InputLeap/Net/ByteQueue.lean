import InputLeap.LTS.Basic
import InputLeap.Net.StreamBuffer
import Mathlib.Algebra.Ring.Nat

/-!
# The buffer as a queue

A stream's buffer stands for a queue of bytes: writing appends to it, peeking looks at what comes
first and popping removes that.  Chunks that peeking has merged are not split again, so the first
chunk grows while the queue is never emptied, and the number of bytes of it that are discarded,
which has 32 bits like the size, can pass 2 ^ 32 although few bytes wait.

## Main definitions

* `ByteQueue` : a buffer, and the bytes that were written and not popped.
* `ByteQueue.Faithful` : the buffer stands for these bytes.
* `ByteQueue.Fits` : the buffer can count the bytes that wait and those that it discards.

## Main results

* `ByteQueue.queue_faithful_of_reachable` : the buffer is a queue in runs whose calls fit, and a
  call that does not fit ends that.
* `ByteQueue.not_queue_faithful_of_reachable` : there are others.
-/

namespace InputLeap

namespace StreamBuffer

/-- No chunk is empty, and the first one is not discarded as a whole. -/
structure Trim (b : StreamBuffer) : Prop where
  filled : ∀ c ∈ b.chunks, c ≠ []
  head : ∀ c ∈ b.chunks.head?, b.headUsed < c.length

variable {b : StreamBuffer} {data : Bytes} {n : ℕ}

theorem trim_empty : Trim {} := ⟨fun _ hc => (by cases hc), fun _ hc => (by cases hc)⟩

theorem filled_append {fuel : ℕ} {scan : Bytes} (hfuel : data.length < fuel)
    (hscan : scan.length < chunkSize) (hdata : data ≠ []) :
    ∀ c ∈ append fuel scan data, c ≠ [] := by
  induction fuel generalizing scan data with
  | zero => omega
  | succ fuel ih =>
    have hpos := List.length_pos_iff.2 hdata
    have hfirst : scan ++ data.take (min (chunkSize - scan.length) data.length) ≠ [] := by
      intro hnil
      have hlength := congrArg List.length hnil
      rw [List.length_append, List.length_take, List.length_nil] at hlength
      omega
    have hlen : (data.drop (min (chunkSize - scan.length) data.length)).length =
        data.length - min (chunkSize - scan.length) data.length := List.length_drop
    simp only [append]
    split_ifs with hmore
    · exact List.forall_mem_cons.2
        ⟨hfirst, ih (by omega) (by decide) (List.length_pos_iff.1 hmore)⟩
    · exact List.forall_mem_singleton.2 hfirst

theorem filled_writeChunks {chunks : List Bytes} (h : ∀ c ∈ chunks, c ≠ []) (hdata : data ≠ []) :
    ∀ c ∈ writeChunks chunks data, c ≠ [] := by
  have hnew :=
    filled_append (Nat.lt_succ_self _) (by decide : ([] : Bytes).length < chunkSize) hdata
  unfold writeChunks
  cases hlast : chunks.getLast? with
  | none => exact hnew
  | some scan =>
    dsimp only
    split_ifs with hfull
    · exact List.forall_mem_append.2 ⟨h, hnew⟩
    · refine List.forall_mem_append.2 ⟨fun c hc => h c (List.dropLast_subset _ hc), ?_⟩
      exact filled_append (Nat.lt_succ_self _) (by omega) hdata

theorem Trim.write (h : Trim b) (hok : Ok b) (data : Bytes) : Trim (b.write data) := by
  unfold StreamBuffer.write
  split_ifs with hdata
  · exact h
  · have hne : data ≠ [] := fun hnil => hdata (by rw [hnil]; rfl)
    have hfilled := filled_writeChunks h.filled hne
    refine ⟨hfilled, fun c hc => ?_⟩
    obtain ⟨-, hgrown⟩ := head_writeChunks b.chunks data
    cases hchunks : b.chunks with
    | nil =>
      show b.headUsed < c.length
      rw [hok.empty hchunks]
      exact List.length_pos_iff.2 (hfilled c (List.mem_of_mem_head? hc))
    | cons c' rest =>
      have hc' : c' ∈ b.chunks.head? := by rw [hchunks]; rfl
      exact Nat.lt_of_lt_of_le (h.head c' hc') (hgrown c hc c' hc')

theorem filled_consolidate (n headUsed : ℕ) {head : Bytes} {rest : List Bytes} (hhead : head ≠ [])
    (hrest : ∀ c ∈ rest, c ≠ []) : ∀ c ∈ consolidate n headUsed head rest, c ≠ [] := by
  induction rest generalizing head with
  | nil => exact List.forall_mem_singleton.2 hhead
  | cons scan rest ih =>
    simp only [consolidate]
    split_ifs
    · exact ih (List.append_ne_nil_of_left_ne_nil hhead _) (List.forall_mem_cons.1 hrest).2
    · exact List.forall_mem_cons.2 ⟨hhead, hrest⟩

/-- The first chunk only grows. -/
theorem length_head_consolidate (n headUsed : ℕ) (head : Bytes) (rest : List Bytes) :
    ∀ c ∈ (consolidate n headUsed head rest).head?, head.length ≤ c.length := by
  induction rest generalizing head with
  | nil =>
    intro c hc
    cases hc
    exact Nat.le_refl _
  | cons scan rest ih =>
    intro c hc
    simp only [consolidate] at hc
    split_ifs at hc
    · have hle := ih (head ++ scan) c hc
      rw [List.length_append] at hle
      omega
    · cases hc
      exact Nat.le_refl _

theorem Trim.peek (h : Trim b) (n : ℕ) : Trim (b.peek n).2 := by
  cases n with
  | zero => exact h
  | succ n =>
    cases hchunks : b.chunks with
    | nil => simpa only [StreamBuffer.peek, hchunks] using h
    | cons head rest =>
      have hfilled := h.filled
      rw [hchunks] at hfilled
      obtain ⟨hhead, hrest⟩ := List.forall_mem_cons.1 hfilled
      have hused := h.head head (by rw [hchunks]; rfl)
      simp only [StreamBuffer.peek, hchunks]
      refine ⟨filled_consolidate _ _ hhead hrest, fun c hc => ?_⟩
      exact Nat.lt_of_lt_of_le hused (length_head_consolidate _ _ head rest c hc)

theorem trim_discard {chunks : List Bytes} {headUsed : ℕ} (hfilled : ∀ c ∈ chunks, c ≠ [])
    (hused : ∀ c ∈ chunks.head?, headUsed < c.length) (n : ℕ) :
    (∀ c ∈ (discard chunks headUsed n).1, c ≠ []) ∧
      ∀ c ∈ (discard chunks headUsed n).1.head?, (discard chunks headUsed n).2 < c.length := by
  induction chunks generalizing headUsed n with
  | nil => exact ⟨hfilled, fun _ hc => (by cases hc)⟩
  | cons scan rest ih =>
    obtain ⟨hscan, hrest⟩ := List.forall_mem_cons.1 hfilled
    simp only [discard]
    split_ifs with hwhole
    · refine ih hrest (fun c hc => ?_) _
      exact List.length_pos_iff.2 (hrest c (List.mem_of_mem_head? hc))
    · refine ⟨hfilled, fun c hc => ?_⟩
      cases hc
      show headUsed + n < scan.length
      omega

theorem Trim.pop (h : Trim b) (n : ℕ) : Trim (b.pop n) := by
  unfold StreamBuffer.pop
  split_ifs
  · exact trim_empty
  · obtain ⟨hfilled, hhead⟩ := trim_discard h.filled h.head n
    exact ⟨hfilled, fun c hc => Nat.lt_of_le_of_lt (Nat.mod_le _ _) (hhead c hc)⟩

theorem Ok.sum_length (h : Ok b) : b.size + b.headUsed = (b.chunks.map List.length).sum := by
  have hle := h.headUsed_le
  have hsize := h.size
  rw [contents, List.length_drop] at hsize
  rw [← List.length_flatten]
  omega

/-- All bytes can be discarded. -/
theorem counts_of_length_le (h : Ok b) (hn : b.size ≤ n) : b.Counts n := by
  have hzero (chunks : List Bytes) (i : ℕ) (hi : chunks.flatten.length ≤ i) :
      offset chunks i = 0 := by
    induction chunks generalizing i with
    | nil => rfl
    | cons c rest ih =>
      rw [List.flatten_cons, List.length_append] at hi
      rw [offset, if_neg (by omega)]
      exact ih _ (by omega)
  have hsum := h.sum_length
  rw [← List.length_flatten] at hsum
  rw [Counts, hzero _ _ (by omega)]
  decide

end StreamBuffer

open StreamBuffer (Ok Trim)

/-- A buffer and the bytes that are to be in it. -/
structure ByteQueue where
  buffer : StreamBuffer := {}
  /-- What was written and not popped. -/
  queue : Bytes := []

namespace ByteQueue

/-- A call of the buffer; the lengths are of type `uint32_t`. -/
inductive Call
  | write (data : Bytes)
  | peek (n : ℕ)
  | pop (n : ℕ)

variable (q : ByteQueue)

/-- One call.  At most as many bytes are peeked at as the buffer says that it has. -/
def step : Call → Option ByteQueue
  | .write data =>
    if data.length < 2 ^ 32 then some ⟨q.buffer.write data, q.queue ++ data⟩ else none
  | .peek n => if n ≤ q.buffer.size then some { q with buffer := (q.buffer.peek n).2 } else none
  | .pop n => if n < 2 ^ 32 then some ⟨q.buffer.pop n, q.queue.drop n⟩ else none

/-- The runs of a buffer. -/
def lts : LTS ByteQueue Call where
  init q := q = {}
  step := step

/-- The buffer stands for the queue. -/
structure Faithful : Prop where
  getSize : q.buffer.size = q.queue.length
  /-- What comes first. -/
  peek : ∀ n ≤ q.buffer.size, (q.buffer.peek n).1 = q.queue.take n
  /-- The size is the sum of those of the chunks, less what is discarded. -/
  chunks : q.buffer.size + q.buffer.headUsed = (q.buffer.chunks.map List.length).sum
  head : ∀ c ∈ q.buffer.chunks.head?, q.buffer.headUsed < c.length

/-- The buffer can count the bytes that wait, and those of its first chunk that are discarded. -/
def Fits : Call → Prop
  | .write data => q.queue.length + data.length < 2 ^ 32
  | .peek _ => True
  | .pop n => q.buffer.Counts n

instance : ∀ c, Decidable (q.Fits c)
  | .write _ => inferInstanceAs (Decidable (_ < _))
  | .peek _ => .isTrue trivial
  | .pop n => inferInstanceAs (Decidable (q.buffer.Counts n))

/-- The invariant. -/
structure Inv : Prop where
  ok : Ok q.buffer
  trim : Trim q.buffer
  contents : q.buffer.contents = q.queue

variable {q q' : ByteQueue} {c : Call}

theorem Inv.faithful (h : Inv q) : Faithful q := by
  refine ⟨by rw [h.ok.size, h.contents], fun n hn => ?_, h.ok.sum_length, h.trim.head⟩
  rw [← h.contents]
  exact (StreamBuffer.peek_spec h.ok (by rwa [← h.ok.size])).1

theorem Inv.step (h : Inv q) (hfits : q.Fits c) (hst : q.step c = some q') : Inv q' := by
  cases c with
  | write data =>
    obtain ⟨-, hst⟩ := Option.ite_none_right_eq_some.1 hst
    cases hst
    refine ⟨h.ok.write ?_, h.trim.write h.ok data, ?_⟩
    · rw [h.contents]
      exact hfits
    · rw [StreamBuffer.contents_write h.ok, h.contents]
  | peek n =>
    obtain ⟨hn, hst⟩ := Option.ite_none_right_eq_some.1 hst
    cases hst
    obtain ⟨-, hcontents, hok⟩ := StreamBuffer.peek_spec h.ok (n := n) (by rwa [← h.ok.size])
    exact ⟨hok, h.trim.peek n, hcontents.trans h.contents⟩
  | pop n =>
    obtain ⟨-, hst⟩ := Option.ite_none_right_eq_some.1 hst
    cases hst
    obtain ⟨hcontents, hok⟩ := StreamBuffer.pop_spec h.ok hfits
    exact ⟨hok, h.trim.pop n, hcontents.trans (by rw [h.contents])⟩

/-- A call that does not fit leaves a wrong count. -/
theorem Inv.not_faithful (h : Inv q) (hfits : ¬q.Fits c) (hst : q.step c = some q') :
    ¬Faithful q' := by
  intro hfaithful
  cases c with
  | write data =>
    obtain ⟨hdata, hst⟩ := Option.ite_none_right_eq_some.1 hst
    cases hst
    have hne : data.length ≠ 0 := by
      intro hzero
      refine hfits ?_
      rw [Fits, hzero, ← h.contents]
      exact h.ok.bound
    have hsize := hfaithful.getSize
    have hwritten : (q.buffer.write data).size = (q.buffer.size + data.length) % 2 ^ 32 := by
      unfold StreamBuffer.write
      rw [if_neg hne]
    simp only [hwritten, List.length_append] at hsize
    have hlt := Nat.mod_lt (q.buffer.size + data.length) (show 0 < 2 ^ 32 by decide)
    exact hfits (by rw [Fits]; omega)
  | peek n => exact hfits trivial
  | pop n =>
    obtain ⟨-, hst⟩ := Option.ite_none_right_eq_some.1 hst
    cases hst
    have hsome : ¬q.buffer.size ≤ n :=
      fun hall => hfits (StreamBuffer.counts_of_length_le h.ok hall)
    have hlength : q.buffer.contents.length = q.buffer.chunks.flatten.length - q.buffer.headUsed :=
      List.length_drop
    have hsize := h.ok.size
    obtain ⟨hdrop, -, -⟩ := StreamBuffer.discard_spec q.buffer.chunks q.buffer.headUsed n
      h.ok.head (by omega)
    have hused := StreamBuffer.discard_used q.buffer.chunks q.buffer.headUsed n h.ok.head
    have hchunks := hfaithful.chunks
    rw [← List.length_flatten] at hchunks
    simp only [StreamBuffer.pop, if_neg hsome] at hchunks
    have hleft := congrArg List.length hdrop
    rw [List.length_drop, List.length_drop] at hleft
    have hwrap := Nat.mod_lt (StreamBuffer.discard q.buffer.chunks q.buffer.headUsed n).2
      (show 0 < 2 ^ 32 by decide)
    refine hfits ?_
    rw [Fits, StreamBuffer.Counts, ← hused]
    omega

theorem inv_of_reachable (hq : lts.ReachableVia Fits q) : Inv q := by
  refine hq.invariant (I := Inv) ?_ ?_
  · rintro q rfl
    exact ⟨StreamBuffer.ok_empty, StreamBuffer.trim_empty, rfl⟩
  · intro q c q' h hfits hst
    exact h.step hfits hst

/-- **The buffer is a queue of bytes** in any run whose calls fit, and after the next call it is if
and only if that fits. -/
theorem queue_faithful_of_reachable (hq : lts.ReachableVia Fits q) :
    Faithful q ∧ ∀ c q', q.step c = some q' → (Faithful q' ↔ q.Fits c) := by
  have h := inv_of_reachable hq
  refine ⟨h.faithful, fun c q' hst => ⟨fun hfaithful => ?_, fun hfits => ?_⟩⟩
  · exact Decidable.of_not_not fun hfits => h.not_faithful hfits hst hfaithful
  · exact (h.step hfits hst).faithful

/-- Peeking merges two chunks; part of the second one is popped with the first. -/
def merged : List Call :=
  [.write (List.replicate 4096 1), .write [2, 3], .pop 4095, .peek 2, .pop 2]

theorem queue_faithful_of_reachable_merged : ∃ q : ByteQueue, Faithful q ∧ q.queue = [3] ∧
    q.buffer.chunks.length = 1 ∧ q.buffer.headUsed = 4097 := by
  have hrun : (lts.exec {} merged).map (fun q => (q.queue, q.buffer.chunks.length,
      q.buffer.headUsed)) = some ([3], 1, 4097) := by decide +kernel
  obtain ⟨q, hq, hend⟩ := Option.map_eq_some_iff.1 hrun
  obtain ⟨hqueue, hend⟩ := Prod.mk.inj hend
  obtain ⟨hlength, hused⟩ := Prod.mk.inj hend
  exact ⟨q, (queue_faithful_of_reachable (.of_exec (.init rfl) (by decide +kernel) hq)).1, hqueue,
    hlength, hused⟩

/-- After 2 ^ 32 bytes the buffer counts none. -/
theorem not_queue_faithful_of_reachable : ¬∀ q : ByteQueue, lts.Reachable q → Faithful q := by
  intro h
  obtain ⟨half, hhalf⟩ : ∃ half : Bytes, half.length = 2 ^ 31 :=
    ⟨List.replicate (2 ^ 31) 0, List.length_replicate⟩
  have hlt : half.length < 2 ^ 32 := by
    rw [hhalf]
    decide
  have hstep (q : ByteQueue) : q.step (.write half) =
      some ⟨q.buffer.write half, q.queue ++ half⟩ := if_pos hlt
  have hfirst : lts.ReachableVia Fits ⟨({} : StreamBuffer).write half, [] ++ half⟩ := by
    refine .step (.init rfl) (l := .write half) ?_ (hstep {})
    show 0 + half.length < 2 ^ 32
    omega
  refine (inv_of_reachable hfirst).not_faithful (c := .write half) ?_ (hstep _)
    (h _ (.step hfirst.reachable (l := .write half) trivial (hstep _)))
  show ¬([] ++ half).length + half.length < 2 ^ 32
  rw [List.nil_append, hhalf]
  decide

end ByteQueue

end InputLeap
