import InputLeap.Net.SecureSocket

/-!
# The stream that a secure socket writes

What the application writes waits in the output buffer.  Data that the TLS library could not take
yet is kept beside it, since the library wants the same data again, and leaves the buffer when the
library has taken it.

## Main definitions

* `SecureSocket.offers` : the data that the next attempt at writing passes to the library.
* `WriteStream` : a socket with what was written, accepted and refused so far.
* `WriteStream.Faithful` : what is accepted is what was written, refused data is passed again, and
  the flushed event tells when everything was accepted.
* `WriteStream.Counted` : the output buffer can count the bytes that wait and those that it
  discards.

## Main results

* `WriteStream.stream_faithful_of_reachable` : the stream is faithful in runs that keep the buffer
  below 2 ^ 32 bytes.
* `WriteStream.not_stream_faithful_of_reachable` : not in all runs.
-/

namespace InputLeap

open StreamBuffer (Ok)

namespace SecureSocket

variable (s : SecureSocket)

/-- How much the next attempt at writing passes to the library. -/
def bufferSize : ℕ := if s.doWriteRetry then s.doWriteRetrySize else s.outputBuffer.size

/-- What the next attempt at writing passes to the library, if it comes to that. -/
def offers : Option Bytes :=
  if s.secureReady && s.ssl && s.bufferSize != 0 then
    some ((s.stage s.bufferSize).doWriteRetryBuffer.take s.bufferSize)
  else none

end SecureSocket

/-- A socket and its history. -/
structure WriteStream where
  socket : SecureSocket
  /-- What the application wrote, oldest first. -/
  written : Bytes := []
  /-- What the library accepted. -/
  accepted : Bytes := []
  /-- What the library could not take when it was last asked. -/
  refused : Option Bytes := none
  /-- How often everything that was written was accepted then. -/
  reached : ℕ := 0

namespace WriteStream

/-- What happens to the stream. -/
inductive Action
  /-- The application writes; the length is of type `uint32_t`. -/
  | write (data : Bytes)
  /-- The socket writes; the library's answer. -/
  | doWrite (error : SslError) (wrote : ℕ)

/-- What the library can answer while the connection lives: it takes some of what it is offered, or
wants to be asked again. -/
def Answers (s : SecureSocket) (error : SslError) (wrote : ℕ) : Prop :=
  error.isWant = true ∨ error = .none ∧ ∀ data ∈ s.offers, 0 < wrote ∧ wrote ≤ data.length

instance (s : SecureSocket) (error : SslError) (wrote : ℕ) : Decidable (Answers s error wrote) :=
  inferInstanceAs (Decidable (_ ∨ _ ∧ _))

variable (w : WriteStream)

/-- Notes what the library took, or refused, of the data that it was offered. -/
def note (error : SslError) (wrote : ℕ) : Option Bytes → WriteStream
  | none => w
  | some data =>
    if error = .none then
      let accepted := w.accepted ++ data.take wrote
      { w with
        accepted := accepted
        refused := none
        reached := if accepted = w.written then w.reached + 1 else w.reached }
    else { w with refused := some data }

/-- One step. -/
def step : Action → Option WriteStream
  | .write data =>
    if data.length < 2 ^ 32 then
      some { w with
        socket := w.socket.write data
        written := if w.socket.writable then w.written ++ data else w.written }
    else none
  | .doWrite error wrote =>
    if Answers w.socket error wrote then
      some { w.note error wrote w.socket.offers with socket := (w.socket.doWrite error wrote).1 }
    else none

/-- A socket that lives and that nothing was written to. -/
structure Fresh (s : SecureSocket) : Prop where
  fatal : s.fatal = false
  outputBuffer : s.outputBuffer = {}
  doWriteRetry : s.doWriteRetry = false
  events : SocketEvent.streamOutputFlushed ∉ s.events

/-- The runs of a stream. -/
def lts : LTS WriteStream Action where
  init w := ∃ s, Fresh s ∧ w = { socket := s }
  step := step

/-- **The stream is faithful**: the library has accepted a prefix of what was written, the next
attempt after a refused one passes the same data, and the flushed event is sent each time when
everything that was written was accepted, and only then. -/
structure Faithful : Prop where
  accepted : w.accepted <+: w.written
  refused : ∀ data ∈ w.refused, ∀ error wrote,
    (w.socket.doWrite error wrote).1.calls = .write data :: w.socket.calls
  flushed : w.socket.events.count .streamOutputFlushed = w.reached

/-- The output buffer can count the bytes that wait, and those that it discards when the library
has taken some. -/
def Counted : Action → Prop
  | .write data =>
    w.socket.writable = true → w.socket.outputBuffer.contents.length + data.length < 2 ^ 32
  | .doWrite error wrote =>
    error = .none → (w.socket.stage w.socket.bufferSize).outputBuffer.Counts wrote

instance : ∀ a, Decidable (w.Counted a)
  | .write _ => inferInstanceAs (Decidable (_ → _))
  | .doWrite .. => inferInstanceAs (Decidable (_ → _))

end WriteStream

/-! ### One attempt -/

namespace SecureSocket

variable {s : SecureSocket} {error : SslError} {wrote : ℕ} {data : Bytes}

/-- Data that waits for another attempt is what comes first in the output buffer. -/
structure Retries (s : SecureSocket) : Prop where
  pos : 0 < s.doWriteRetrySize
  le : s.doWriteRetrySize ≤ s.outputBuffer.contents.length
  buffer : s.doWriteRetryBuffer.take s.doWriteRetrySize =
    s.outputBuffer.contents.take s.doWriteRetrySize

/-- What is between two attempts at writing. -/
structure Pending (s : SecureSocket) : Prop where
  fatal : s.fatal = false
  buffer : Ok s.outputBuffer
  retry : s.doWriteRetry = true → Retries s

theorem Pending.bufferSize_le (h : Pending s) :
    s.bufferSize ≤ s.outputBuffer.contents.length := by
  unfold bufferSize
  split_ifs with hretry
  · exact (h.retry hretry).le
  · exact Nat.le_of_eq h.buffer.size

/-- The data is put aside in the order of the buffer, which keeps its contents. -/
theorem Pending.stage (h : Pending s) :
    (s.stage s.bufferSize).doWriteRetryBuffer.take s.bufferSize =
        s.outputBuffer.contents.take s.bufferSize ∧
      (s.stage s.bufferSize).outputBuffer.contents = s.outputBuffer.contents ∧
      Ok (s.stage s.bufferSize).outputBuffer := by
  unfold SecureSocket.stage
  split_ifs with hretry
  · have hsize : s.bufferSize = s.doWriteRetrySize := if_pos hretry
    rw [hsize]
    exact ⟨(h.retry hretry).buffer, rfl, h.buffer⟩
  · obtain ⟨hdata, hcontents, hok⟩ := StreamBuffer.peek_spec h.buffer h.bufferSize_le
    refine ⟨?_, hcontents, hok⟩
    show (s.outputBuffer.peek s.bufferSize).1.take s.bufferSize = _
    rw [hdata, List.take_take, Nat.min_self]

/-- A socket with some data put aside, and otherwise the same. -/
theorem stage_eq (s : SecureSocket) (n : ℕ) :
    s.stage n = { s with
      doWriteRetryBuffer := (s.stage n).doWriteRetryBuffer
      outputBuffer := (s.stage n).outputBuffer } := by
  unfold stage
  split_ifs
  · rfl
  · rfl

@[simp] theorem fatal_stage (s : SecureSocket) (n : ℕ) : (s.stage n).fatal = s.fatal := by
  rw [stage_eq]

@[simp] theorem secureReady_stage (s : SecureSocket) (n : ℕ) :
    (s.stage n).secureReady = s.secureReady := by
  rw [stage_eq]

@[simp] theorem ssl_stage (s : SecureSocket) (n : ℕ) : (s.stage n).ssl = s.ssl := by
  rw [stage_eq]

@[simp] theorem events_stage (s : SecureSocket) (n : ℕ) : (s.stage n).events = s.events := by
  rw [stage_eq]

@[simp] theorem calls_stage (s : SecureSocket) (n : ℕ) : (s.stage n).calls = s.calls := by
  rw [stage_eq]

/-- Nothing is passed to the library. -/
theorem doWrite_idle (hidle : s.secureReady = false ∨ s.bufferSize = 0) :
    s.doWrite error wrote = (s, .retry) := by
  unfold doWrite
  obtain hready | hzero := hidle
  · rw [hready]
    rfl
  · unfold bufferSize at hzero
    simp only [hzero, ↓reduceIte, ite_self]

/-- An attempt: the data is put aside and passed to the library, whose answer decides. -/
theorem doWrite_eq (hready : s.secureReady = true) (hsize : s.bufferSize ≠ 0) :
    s.doWrite error wrote =
      let t := s.stage s.bufferSize
      let r := t.secureWrite (t.doWriteRetryBuffer.take s.bufferSize) error wrote
      r.1.finishWrite s.bufferSize r.2.1 r.2.2 := by
  unfold bufferSize at hsize ⊢
  simp only [doWrite, hready, Bool.not_true, Bool.false_eq_true, if_false, if_neg hsize]

theorem secureWrite_noSsl (hssl : s.ssl = false) :
    s.secureWrite data error wrote = (s, 0, 0) := by
  unfold secureWrite
  rw [hssl]
  rfl

/-- The library wants to be asked again. -/
theorem secureWrite_want (wrote : ℕ) (hssl : s.ssl = true) (hfatal : s.fatal = false)
    (hwant : error.isWant = true) :
    ∃ writable, s.secureWrite data error wrote =
      ({ s.call (.write data) with
        writable := writable, secureWriteRetry := s.secureWriteRetry + 1 }, 0, wrote) := by
  obtain ⟨writable, hcheck⟩ :=
    checkResult_want (s := s.call (.write data)) hfatal hwant s.secureWriteRetry
  refine ⟨writable, ?_⟩
  have hretry : (s.call (.write data)).secureWriteRetry = s.secureWriteRetry := rfl
  unfold secureWrite
  rw [if_pos hssl]
  dsimp only
  rw [hretry, hcheck]
  exact if_pos (Nat.succ_ne_zero _)

/-- The library takes some of the data. -/
theorem secureWrite_none (hssl : s.ssl = true) (hfatal : s.fatal = false) :
    s.secureWrite data .none wrote =
      ({ s.call (.write data) with secureWriteRetry := 0 }, (wrote : ℤ), wrote) := by
  have hlives : ¬(s.call (.write data)).fatal = true := by
    show ¬s.fatal = true
    rw [hfatal]
    exact Bool.false_ne_true
  unfold secureWrite
  rw [if_pos hssl]
  simp only [checkResult, if_neg hlives, ne_eq, not_true_eq_false, if_false]

theorem calls_checkResult (s : SecureSocket) (error : SslError) (retry : ℕ) :
    (s.checkResult error retry).1.calls = s.calls := by
  obtain ⟨t, hflag, hend⟩ := checkResult_cases s error retry
  have hset : t.calls = s.calls := by
    obtain rfl | rfl | rfl := hflag
    · rfl
    · rfl
    · rfl
  obtain hend | hend := hend
  · rw [hend, hset]
  · rw [hend, ← hset]
    rfl

theorem calls_secureWrite (hssl : s.ssl = true) :
    (s.secureWrite data error wrote).1.calls = .write data :: s.calls := by
  have hcheck := calls_checkResult (s.call (.write data)) error s.secureWriteRetry
  unfold secureWrite
  rw [if_pos hssl]
  dsimp only
  split_ifs
  · exact hcheck
  · exact hcheck
  · exact hcheck

theorem calls_finishWrite (s : SecureSocket) (n : ℕ) (status : ℤ) (wrote : ℕ) :
    (s.finishWrite n status wrote).1.calls = s.calls := by
  simp only [finishWrite, discardWrittenData]
  split_ifs
  all_goals rfl

/-- Whatever the library answers, an attempt that reaches it passes what the socket offers. -/
theorem calls_doWrite (hdata : s.offers = some data) :
    (s.doWrite error wrote).1.calls = .write data :: s.calls := by
  unfold offers at hdata
  split_ifs at hdata with hpasses
  simp only [Bool.and_eq_true, bne_iff_ne, ne_eq] at hpasses
  obtain ⟨⟨hready, hssl⟩, hsize⟩ := hpasses
  have hssl' : (s.stage s.bufferSize).ssl = true := (ssl_stage ..).trans hssl
  rw [doWrite_eq hready hsize]
  dsimp only
  rw [calls_finishWrite, calls_secureWrite hssl', calls_stage, Option.some.inj hdata]

/-- After an attempt in which the library took nothing. -/
structure Held (s s' : SecureSocket) : Prop where
  pending : Pending s'
  secureReady : s'.secureReady = s.secureReady
  ssl : s'.ssl = s.ssl
  contents : s'.outputBuffer.contents = s.outputBuffer.contents
  doWriteRetry : s'.doWriteRetry = true
  doWriteRetrySize : s'.doWriteRetrySize = s.bufferSize
  events : s'.events = s.events

theorem Pending.hold (h : Pending s) (hsize : s.bufferSize ≠ 0) (writable : Bool) (retries : ℕ)
    (calls : List SslCall) :
    Held s { s.stage s.bufferSize with
      writable := writable
      secureWriteRetry := retries
      calls := calls
      doWriteRetry := true
      doWriteRetrySize := s.bufferSize } := by
  obtain ⟨hdata, hcontents, hok⟩ := h.stage
  refine ⟨⟨(fatal_stage ..).trans h.fatal, hok, fun _ => ⟨Nat.pos_iff_ne_zero.2 hsize, ?_, ?_⟩⟩,
    secureReady_stage .., ssl_stage .., hcontents, rfl, rfl, events_stage ..⟩
  · show s.bufferSize ≤ (s.stage s.bufferSize).outputBuffer.contents.length
    rw [hcontents]
    exact h.bufferSize_le
  · show (s.stage s.bufferSize).doWriteRetryBuffer.take s.bufferSize =
      (s.stage s.bufferSize).outputBuffer.contents.take s.bufferSize
    rw [hcontents, hdata]

/-- After an attempt in which the library took some data. -/
structure Took (s s' : SecureSocket) (wrote : ℕ) : Prop where
  pending : Pending s'
  secureReady : s'.secureReady = s.secureReady
  ssl : s'.ssl = s.ssl
  contents : s'.outputBuffer.contents = s.outputBuffer.contents.drop wrote
  events : s'.events =
    if s'.outputBuffer.contents = [] then s.events ++ [.streamOutputFlushed] else s.events

theorem Pending.discard (h : Pending s)
    (hcounts : (s.stage s.bufferSize).outputBuffer.Counts wrote) (calls : List SslCall) :
    Took s (({ s.stage s.bufferSize with
      secureWriteRetry := 0
      calls := calls
      doWriteRetry := false } : SecureSocket).discardWrittenData wrote) wrote := by
  obtain ⟨-, hcontents, hok⟩ := h.stage
  obtain ⟨hpop, hok'⟩ := StreamBuffer.pop_spec hok hcounts
  rw [hcontents] at hpop
  have hsize := hok'.size
  have hfatal := (fatal_stage s s.bufferSize).trans h.fatal
  have hready := secureReady_stage s s.bufferSize
  have hssl := ssl_stage s s.bufferSize
  have hevents := events_stage s s.bufferSize
  simp only [discardWrittenData]
  split_ifs with hempty
  · have hnil := List.length_eq_zero_iff.1 (hsize.symm.trans hempty)
    refine ⟨⟨hfatal, hok', fun hretry => by cases hretry⟩, hready, hssl, hpop, ?_⟩
    exact (congrArg (· ++ [SocketEvent.streamOutputFlushed]) hevents).trans (if_pos hnil).symm
  · have hne (hnil : ((s.stage s.bufferSize).outputBuffer.pop wrote).contents = []) : False :=
      hempty (hsize.trans (List.length_eq_zero_iff.2 hnil))
    refine ⟨⟨hfatal, hok', fun hretry => by cases hretry⟩, hready, hssl, hpop, ?_⟩
    exact hevents.trans (if_neg hne).symm

theorem events_discardWrittenData (hempty : (s.outputBuffer.pop wrote).size = 0) :
    (s.discardWrittenData wrote).events = s.events ++ [.streamOutputFlushed] := by
  simp only [discardWrittenData, if_pos hempty]
  rfl

/-- Writing appends to the output buffer. -/
theorem write_eq (s : SecureSocket) (data : Bytes) :
    ∃ isFlushed job, s.write data =
      if s.writable then
        { s with
          outputBuffer := s.outputBuffer.write data, isFlushed := isFlushed, job := job }
      else s.sendEvent .streamOutputError := by
  unfold write
  by_cases hwritable : s.writable = true
  · have hopen : ¬(!s.writable) = true := by
      rw [hwritable]
      exact Bool.false_ne_true
    rw [if_neg hopen]
    simp only [if_pos hwritable]
    split_ifs with hnil
    · refine ⟨s.isFlushed, s.job, ?_⟩
      rw [hnil]
      rfl
    · exact ⟨false, _, rfl⟩
    · exact ⟨false, s.job, rfl⟩
  · refine ⟨s.isFlushed, s.job, ?_⟩
    rw [if_neg hwritable]
    exact if_pos (by rw [Bool.eq_false_iff.2 hwritable]; rfl)

end SecureSocket

/-! ### Steps -/

namespace WriteStream

variable {w w' : WriteStream}

/-- The invariant: what waits is what was written and not accepted. -/
structure Inv (w : WriteStream) : Prop where
  pending : w.socket.Pending
  written : w.written = w.accepted ++ w.socket.outputBuffer.contents
  refused : ∀ data ∈ w.refused, w.socket.secureReady = true ∧ w.socket.ssl = true ∧
    w.socket.doWriteRetry = true ∧
    data = w.socket.outputBuffer.contents.take w.socket.doWriteRetrySize
  flushed : w.socket.events.count .streamOutputFlushed = w.reached

theorem Fresh.inv {s : SecureSocket} (h : Fresh s) : Inv { socket := s } := by
  refine ⟨⟨h.fatal, ?_, fun hretry => ?_⟩, ?_, fun data hdata => (by cases hdata),
    List.count_eq_zero.2 h.events⟩
  · rw [h.outputBuffer]
    exact StreamBuffer.ok_empty
  · rw [h.doWriteRetry] at hretry
    cases hretry
  · show [] = [] ++ s.outputBuffer.contents
    rw [h.outputBuffer]
    rfl

/-- The socket offers what comes first in the output buffer. -/
theorem offers_eq (h : Inv w) (hready : w.socket.secureReady = true) (hssl : w.socket.ssl = true)
    (hsize : w.socket.bufferSize ≠ 0) :
    w.socket.offers = some (w.socket.outputBuffer.contents.take w.socket.bufferSize) := by
  unfold SecureSocket.offers
  rw [if_pos, h.pending.stage.1]
  simp only [hready, hssl, Bool.and_self, Bool.true_and, bne_iff_ne]
  exact hsize

theorem Inv.faithful (h : Inv w) : Faithful w := by
  refine ⟨⟨_, h.written.symm⟩, fun data hdata error wrote => ?_, h.flushed⟩
  obtain ⟨hready, hssl, hretry, hdata⟩ := h.refused data hdata
  have hsize : w.socket.bufferSize = w.socket.doWriteRetrySize := if_pos hretry
  apply SecureSocket.calls_doWrite
  rw [offers_eq h hready hssl, hsize, hdata]
  rw [hsize]
  exact Nat.pos_iff_ne_zero.1 (h.pending.retry hretry).pos

theorem Inv.write (h : Inv w) {data : Bytes} (hcounted : w.Counted (.write data)) :
    Inv { w with
      socket := w.socket.write data
      written := if w.socket.writable then w.written ++ data else w.written } := by
  obtain ⟨isFlushed, job, heq⟩ := SecureSocket.write_eq w.socket data
  rw [heq]
  cases hwritable : w.socket.writable with
  | false =>
    refine ⟨⟨h.pending.fatal, h.pending.buffer, fun hretry => ?_⟩, h.written, h.refused, ?_⟩
    · obtain ⟨hpos, hle, hbuffer⟩ := h.pending.retry hretry
      exact ⟨hpos, hle, hbuffer⟩
    · show (w.socket.events ++ [SocketEvent.streamOutputError]).count .streamOutputFlushed = _
      rw [List.count_append, h.flushed]
      rfl
  | true =>
    have hok := h.pending.buffer
    have hcontents : (w.socket.outputBuffer.write data).contents =
        w.socket.outputBuffer.contents ++ data := StreamBuffer.contents_write hok data
    -- What comes first in the buffer stays there.
    have hfirst (n : ℕ) (hn : n ≤ w.socket.outputBuffer.contents.length) :
        (w.socket.outputBuffer.write data).contents.take n =
          w.socket.outputBuffer.contents.take n := by
      rw [hcontents, List.take_append_of_le_length hn]
    refine ⟨⟨h.pending.fatal, hok.write (hcounted hwritable), fun hretry => ?_⟩, ?_,
      fun d hd => ?_, h.flushed⟩
    · obtain ⟨hpos, hle, hbuffer⟩ := h.pending.retry hretry
      refine ⟨hpos, ?_, hbuffer.trans (hfirst _ hle).symm⟩
      show _ ≤ (w.socket.outputBuffer.write data).contents.length
      rw [hcontents, List.length_append]
      exact Nat.le_add_right_of_le hle
    · show w.written ++ data = w.accepted ++ (w.socket.outputBuffer.write data).contents
      rw [hcontents, h.written, List.append_assoc]
    · obtain ⟨hready, hssl, hretry, hdata⟩ := h.refused d hd
      exact ⟨hready, hssl, hretry, hdata.trans (hfirst _ (h.pending.retry hretry).le).symm⟩

/-- Nothing is passed to the library. -/
theorem Inv.idle (h : Inv w) (hidle : w.socket.secureReady = false ∨ w.socket.bufferSize = 0)
    (error : SslError) (wrote : ℕ) :
    Inv { w.note error wrote w.socket.offers with socket := (w.socket.doWrite error wrote).1 } := by
  have hoffers : w.socket.offers = none := by
    unfold SecureSocket.offers
    refine if_neg fun hpasses => ?_
    simp only [Bool.and_eq_true, bne_iff_ne, ne_eq] at hpasses
    obtain hready | hzero := hidle
    · rw [hready] at hpasses
      exact Bool.false_ne_true hpasses.1.1
    · exact hpasses.2 hzero
  rw [hoffers, SecureSocket.doWrite_idle hidle]
  exact h

/-- The library took nothing. -/
theorem Inv.held (h : Inv w) {s : SecureSocket} (hheld : w.socket.Held s)
    {refused : Option Bytes}
    (hrefused : ∀ data ∈ refused, w.socket.secureReady = true ∧ w.socket.ssl = true ∧
      data = w.socket.outputBuffer.contents.take w.socket.bufferSize) :
    Inv { w with socket := s, refused := refused } := by
  refine ⟨hheld.pending, ?_, fun data hdata => ?_, ?_⟩
  · show w.written = w.accepted ++ s.outputBuffer.contents
    rw [hheld.contents]
    exact h.written
  · obtain ⟨hready, hssl, heq⟩ := hrefused data hdata
    refine ⟨hheld.secureReady.trans hready, hheld.ssl.trans hssl, hheld.doWriteRetry, ?_⟩
    show data = s.outputBuffer.contents.take s.doWriteRetrySize
    rw [hheld.contents, hheld.doWriteRetrySize]
    exact heq
  · show s.events.count .streamOutputFlushed = w.reached
    rw [hheld.events]
    exact h.flushed

/-- The library took some of what comes first in the output buffer. -/
theorem Inv.took (h : Inv w) {s : SecureSocket} {wrote : ℕ} (htook : w.socket.Took s wrote)
    (hwrote : wrote ≤ w.socket.bufferSize) :
    Inv { w.note .none wrote
        (some (w.socket.outputBuffer.contents.take w.socket.bufferSize)) with socket := s } := by
  have htaken : w.accepted ++ (w.socket.outputBuffer.contents.take w.socket.bufferSize).take wrote =
      w.accepted ++ w.socket.outputBuffer.contents.take wrote := by
    rw [List.take_take, Nat.min_eq_left hwrote]
  have hwritten : w.written =
      w.accepted ++ w.socket.outputBuffer.contents.take wrote ++ s.outputBuffer.contents := by
    rw [htook.contents, List.append_assoc, List.take_append_drop, h.written]
  have hreached : w.accepted ++ w.socket.outputBuffer.contents.take wrote = w.written ↔
      s.outputBuffer.contents = [] := by
    rw [hwritten]
    exact List.self_eq_append_right
  refine ⟨htook.pending, ?_, fun data hdata => (by cases hdata), ?_⟩
  · show w.written = w.accepted ++ (w.socket.outputBuffer.contents.take _).take wrote ++ _
    rw [htaken]
    exact hwritten
  · show s.events.count .streamOutputFlushed = if _ = w.written then w.reached + 1 else w.reached
    rw [htook.events, htaken]
    split_ifs with hempty hall hall
    · rw [List.count_append, h.flushed]
      rfl
    · exact absurd (hreached.2 hempty) hall
    · exact absurd (hreached.1 hall) hempty
    · exact h.flushed

/-- One attempt at writing. -/
theorem Inv.doWrite (h : Inv w) {error : SslError} {wrote : ℕ}
    (hcounted : w.Counted (.doWrite error wrote)) (hanswers : Answers w.socket error wrote) :
    Inv { w.note error wrote w.socket.offers with socket := (w.socket.doWrite error wrote).1 } := by
  by_cases hidle : w.socket.secureReady = false ∨ w.socket.bufferSize = 0
  · exact h.idle hidle error wrote
  obtain ⟨hready, hsize⟩ := not_or.1 hidle
  replace hready := Bool.not_eq_false _ |>.mp hready
  have hfatal := (SecureSocket.fatal_stage w.socket w.socket.bufferSize).trans h.pending.fatal
  have hssl_stage := SecureSocket.ssl_stage w.socket w.socket.bufferSize
  rw [SecureSocket.doWrite_eq hready hsize]
  dsimp only
  cases hssl : w.socket.ssl with
  | false =>
    have hoffers : w.socket.offers = none := by
      unfold SecureSocket.offers
      rw [hssl, Bool.and_false]
      rfl
    rw [hoffers, SecureSocket.secureWrite_noSsl (hssl_stage.trans hssl)]
    refine h.held (h.pending.hold hsize _ _ _) fun data hdata => ?_
    obtain ⟨-, hconnected, -⟩ := h.refused data hdata
    rw [hssl] at hconnected
    cases hconnected
  | true =>
    have hoffers := offers_eq h hready hssl hsize
    obtain hwant | ⟨rfl, htakes⟩ := hanswers
    · have hnone : error ≠ .none := by
        rintro rfl
        cases hwant
      obtain ⟨writable, heq⟩ := SecureSocket.secureWrite_want wrote
        (hssl_stage.trans hssl) hfatal hwant
      rw [hoffers, heq]
      simp only [note, if_neg hnone]
      refine h.held (h.pending.hold hsize _ _ _) fun data hdata => ?_
      exact ⟨hready, hssl, (Option.some.inj hdata).symm⟩
    · obtain ⟨hpos, hle⟩ := htakes _ hoffers
      rw [List.length_take] at hle
      have hstatus : ¬(wrote : ℤ) < 0 := Int.not_lt.2 (Int.natCast_nonneg wrote)
      have hsome : ¬(wrote : ℤ) = 0 := by omega
      rw [hoffers, SecureSocket.secureWrite_none (hssl_stage.trans hssl) hfatal]
      simp only [SecureSocket.finishWrite, if_neg hstatus, if_neg hsome, if_pos hpos]
      exact h.took (h.pending.discard (hcounted rfl) _) (Nat.le_trans hle (Nat.min_le_left ..))

theorem Inv.step (h : Inv w) {a : Action} (hcounted : w.Counted a) (hst : w.step a = some w') :
    Inv w' := by
  cases a with
  | write data =>
    obtain ⟨-, hst⟩ := Option.ite_none_right_eq_some.1 hst
    cases hst
    exact h.write hcounted
  | doWrite error wrote =>
    obtain ⟨hanswers, hst⟩ := Option.ite_none_right_eq_some.1 hst
    cases hst
    exact h.doWrite hcounted hanswers

/-- **The stream is faithful** in every run in which the output buffer can count its bytes and
those that it discards. -/
theorem stream_faithful_of_reachable (hw : lts.ReachableVia Counted w) : Faithful w := by
  have h : Inv w := by
    refine hw.invariant (I := Inv) ?_ ?_
    · rintro w ⟨s, hs, rfl⟩
      exact hs.inv
    · intro w a w' h hcounted hst
      exact h.step hcounted hst
  exact h.faithful

/-- A socket after the handshake. -/
def connected : SecureSocket :=
  { server := false
    securityLevel := .encrypted
    secureReady := true
    ssl := true
    connected := true
    readable := true
    writable := true }

theorem fresh_connected : Fresh connected := ⟨rfl, rfl, rfl, List.not_mem_nil⟩

/-- The library wants to be asked again, the application goes on writing, and the library takes
what it refused and then the rest. -/
def askedAgain : List Action :=
  [.write [1, 2], .doWrite .wantRead 0, .write [3], .doWrite .none 2, .doWrite .none 1]

theorem stream_faithful_of_reachable_askedAgain :
    ∃ w : WriteStream, Faithful w ∧ w.accepted = [1, 2, 3] ∧ w.reached = 1 := by
  have hrun : (lts.exec { socket := connected } askedAgain).map
      (fun w => (w.accepted, w.reached)) = some ([1, 2, 3], 1) := by decide +kernel
  obtain ⟨w, hw, hend⟩ := Option.map_eq_some_iff.1 hrun
  obtain ⟨haccepted, hreached⟩ := Prod.mk.inj hend
  exact ⟨w, stream_faithful_of_reachable (.of_exec (.init ⟨_, fresh_connected, rfl⟩)
    (by decide +kernel) hw), haccepted, hreached⟩

/-! ### More bytes than the output buffer can count -/

theorem size_write (b : StreamBuffer) {data : Bytes} (hdata : data ≠ []) :
    (b.write data).size = (b.size + data.length) % 2 ^ 32 ∧
      (b.write data).headUsed = b.headUsed ∧
      (b.write data).chunks.flatten = b.chunks.flatten ++ data := by
  have hlength : data.length ≠ 0 := fun hzero => hdata (List.length_eq_zero_iff.1 hzero)
  unfold StreamBuffer.write
  rw [if_neg hlength]
  exact ⟨rfl, rfl, StreamBuffer.flatten_writeChunks b.chunks data⟩

/-- Peeking at one byte finds one, whatever the size says. -/
theorem length_peek_one {b : StreamBuffer} (hused : b.headUsed = 0) (hne : b.chunks.flatten ≠ []) :
    (b.peek 1).1.length = 1 ∧ (b.peek 1).2.size = b.size := by
  cases hchunks : b.chunks with
  | nil =>
    rw [hchunks] at hne
    exact absurd rfl hne
  | cons head rest =>
    rw [hchunks, List.flatten_cons] at hne
    have hpos := List.length_pos_iff.2 hne
    obtain ⟨c, tail, heq, -, hlength⟩ :=
      StreamBuffer.head_consolidate 1 0 head rest (Nat.zero_le _) hpos
    simp only [StreamBuffer.peek, hchunks, hused, heq, List.headD_cons, List.drop_zero,
      List.length_take]
    exact ⟨Nat.min_eq_left hlength, trivial⟩

/-- A stream of which nothing was passed to the library. -/
structure Waits (w : WriteStream) (b : StreamBuffer) (written : Bytes) : Prop where
  reachable : lts.Reachable w
  fatal : w.socket.fatal = false
  secureReady : w.socket.secureReady = true
  ssl : w.socket.ssl = true
  writable : w.socket.writable = true
  doWriteRetry : w.socket.doWriteRetry = false
  events : w.socket.events = []
  outputBuffer : w.socket.outputBuffer = b
  written : w.written = written
  accepted : w.accepted = []
  reached : w.reached = 0

theorem Waits.write {b : StreamBuffer} {written : Bytes} (h : Waits w b written) (data : Bytes)
    (hlength : data.length < 2 ^ 32) : ∃ w', Waits w' (b.write data) (written ++ data) := by
  obtain ⟨isFlushed, job, heq⟩ := SecureSocket.write_eq w.socket data
  have hst : lts.step w (.write data) = some { w with
      socket := { w.socket with
        outputBuffer := w.socket.outputBuffer.write data, isFlushed := isFlushed, job := job }
      written := w.written ++ data } := by
    show w.step (.write data) = _
    simp only [step, if_pos hlength, heq, if_pos h.writable]
  have hr := h.reachable.step trivial hst
  exact ⟨_, hr, h.fatal, h.secureReady, h.ssl, h.writable, h.doWriteRetry, h.events,
    congrArg (·.write data) h.outputBuffer, congrArg (· ++ data) h.written, h.accepted, h.reached⟩

/-- The library takes one byte when the buffer counts one: that everything was accepted is told,
whatever was written. -/
theorem Waits.flushed {b : StreamBuffer} {written : Bytes} (h : Waits w b written)
    (hused : b.headUsed = 0) (hne : b.chunks.flatten ≠ []) (hsize : b.size = 1)
    (hlength : 1 < written.length) : ¬∀ w : WriteStream, lts.Reachable w → Faithful w := by
  intro hall
  obtain ⟨hpeek, hkept⟩ := length_peek_one hused hne
  have hbufferSize : w.socket.bufferSize = 1 := by
    unfold SecureSocket.bufferSize
    rw [h.doWriteRetry, h.outputBuffer, hsize]
    rfl
  have hstage : w.socket.stage 1 =
      { w.socket with doWriteRetryBuffer := (b.peek 1).1, outputBuffer := (b.peek 1).2 } := by
    unfold SecureSocket.stage
    rw [if_neg (by rw [h.doWriteRetry]; exact Bool.false_ne_true), h.outputBuffer]
  have hoffers : w.socket.offers = some ((b.peek 1).1.take 1) := by
    unfold SecureSocket.offers
    rw [h.secureReady, h.ssl, hbufferSize, hstage]
    rfl
  have hanswers : Answers w.socket .none 1 := by
    refine .inr ⟨rfl, fun data hdata => ⟨Nat.one_pos, ?_⟩⟩
    rw [hoffers] at hdata
    rw [← Option.some.inj hdata, List.length_take, hpeek]
    exact Nat.le_refl 1
  have hst : lts.step w (.doWrite .none 1) =
      some { w.note .none 1 w.socket.offers with socket := (w.socket.doWrite .none 1).1 } :=
    if_pos hanswers
  have hcount := (hall _ (h.reachable.step trivial hst)).flushed
  have hpop : (w.socket.stage 1).outputBuffer.pop 1 = {} := by
    rw [hstage]
    exact if_pos (Nat.le_of_eq (hkept.trans hsize))
  have hevents : (w.socket.doWrite .none 1).1.events = [.streamOutputFlushed] := by
    have hsome : ¬((1 : ℕ) : ℤ) < 0 ∧ ¬((1 : ℕ) : ℤ) = 0 ∧ 0 < 1 := by decide
    rw [SecureSocket.doWrite_eq h.secureReady (by rw [hbufferSize]; exact Nat.one_ne_zero),
      hbufferSize]
    dsimp only
    rw [SecureSocket.secureWrite_none ((SecureSocket.ssl_stage ..).trans h.ssl)
      ((SecureSocket.fatal_stage ..).trans h.fatal)]
    simp only [SecureSocket.finishWrite, if_neg hsome.1, if_neg hsome.2.1, if_pos hsome.2.2]
    refine (SecureSocket.events_discardWrittenData ?_).trans ?_
    · exact congrArg StreamBuffer.size hpop
    · show (w.socket.stage 1).events ++ [SocketEvent.streamOutputFlushed] = _
      rw [SecureSocket.events_stage, h.events]
      rfl
  have hreached : (w.note .none 1 w.socket.offers).reached = 0 := by
    rw [hoffers]
    have hshort : w.accepted ++ ((b.peek 1).1.take 1).take 1 ≠ w.written := by
      rw [h.accepted, h.written]
      intro heq
      have hlen := congrArg List.length heq
      rw [List.nil_append, List.length_take] at hlen
      omega
    exact (if_neg hshort).trans h.reached
  have hcontra := hcount.trans hreached
  dsimp only at hcontra
  rw [hevents] at hcontra
  cases hcontra

/-- The size of the output buffer passes 2 ^ 32: when the library has accepted one byte the socket
tells that everything was accepted. -/
theorem not_stream_faithful_of_reachable : ¬∀ w : WriteStream, lts.Reachable w → Faithful w := by
  obtain ⟨big, hbig⟩ : ∃ big : Bytes, big.length = 2 ^ 32 - 1 :=
    ⟨List.replicate (2 ^ 32 - 1) 0, List.length_replicate⟩
  have hne : big ≠ [] := by
    rintro rfl
    exact absurd hbig (by decide)
  have h : Waits { socket := connected } {} [] :=
    ⟨.init ⟨_, fresh_connected, rfl⟩, rfl, rfl, rfl, rfl, rfl, rfl, rfl, rfl, rfl, rfl⟩
  obtain ⟨w₁, h₁⟩ := h.write [1] (by decide)
  obtain ⟨w₂, h₂⟩ := h₁.write big (by omega)
  obtain ⟨w₃, h₃⟩ := h₂.write [1] (by decide)
  obtain ⟨hsize₁, hused₁, hflat₁⟩ := size_write {} (List.cons_ne_nil 1 [])
  obtain ⟨hsize₂, hused₂, hflat₂⟩ := size_write (({} : StreamBuffer).write [1]) hne
  obtain ⟨hsize₃, hused₃, hflat₃⟩ :=
    size_write ((({} : StreamBuffer).write [1]).write big) (List.cons_ne_nil 1 [])
  refine h₃.flushed (hused₃.trans (hused₂.trans hused₁)) ?_ ?_ ?_
  · rw [hflat₃]
    exact List.append_ne_nil_of_right_ne_nil _ (List.cons_ne_nil _ _)
  · rw [hsize₃, hsize₂, hsize₁, hbig]
    rfl
  · rw [List.length_append, List.length_append]
    show 1 < 0 + 1 + big.length + 1
    omega

end WriteStream

end InputLeap
