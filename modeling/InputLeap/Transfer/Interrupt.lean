import InputLeap.Transfer.FileChunk

/-!
# Interrupting file transfers

`StreamChunker::interruptFile` asks the running `sendFile` to stop through two static variables:
`s_isChunkingFile` says that a file is being sent, and `s_interruptFile` is the request, which the
loop of `sendFile` tests before each chunk.  The request is reset only where it is seen, and
`s_isChunkingFile` is not reset when the file cannot be opened.  `sendFile` runs in a thread of its
own, so calls of `interruptFile` come at any point between its steps, and a call of `sendFile` can
begin while another is running.

## Main definitions

* `SendCall.next` : the next step of a call of `sendFile`.
* `FileSends.lts` : any calls of `sendFile` and `interruptFile`.
* `FileSends.InTime` : a request finds a running call that will test for it, and no call begins
  before it is seen.

## Main results

* `FileSends.messages_eq_sendFile` : each call posts the messages of one `StreamChunker.sendFile`.
* `FileSends.sendFile_whole` : in runs in which the requests come in time, a call that begins after
  the last request sends the whole file.
* `FileSends.truncated` : a call that finds an old request sends nothing of its file.
-/

namespace InputLeap

/-- A file that can be opened and read. -/
structure ReadableFile where
  content : Bytes
  /-- Sizes are 64-bit numbers. -/
  size_lt : content.length < 2 ^ 64
deriving DecidableEq

namespace ReadableFile

/-- The file as one run of `sendFile` sends it. -/
def sent (f : ReadableFile) (interrupted : Option ℕ) : SentFile :=
  ⟨f.content, interrupted, f.size_lt⟩

end ReadableFile

/-- What `sendFile` posts. -/
inductive FileEvent
  | keepAlive
  | sending (chunk : FileChunk)

namespace FileEvent

/-- The message that is sent, if it is one of the file. -/
def message? : FileEvent → Option FileChunk
  | keepAlive => none
  | sending chunk => some chunk

end FileEvent

/-- The local variables of the loop of `sendFile`, and what was posted. -/
structure FileLoop where
  sentLength : ℕ
  chunkSize : ℕ
  events : List FileEvent

namespace FileLoop

/-- Before the loop: the size is posted. -/
def initial (f : ReadableFile) : FileLoop :=
  ⟨0, StreamChunker.chunkSize, [.sending (.start f.content.length)]⟩

/-- One turn of the loop, after the test for a request. -/
def turn (f : ReadableFile) (v : FileLoop) : FileLoop :=
  let chunkSize :=
    if v.sentLength + v.chunkSize > f.content.length then f.content.length - v.sentLength
    else v.chunkSize
  let chunk := (f.content.drop v.sentLength).take chunkSize
  ⟨v.sentLength + chunkSize, chunkSize, v.events ++ [.keepAlive, .sending (.chunk chunk)]⟩

/-- After the loop: the end is posted. -/
def stop (v : FileLoop) : FileLoop := { v with events := v.events ++ [.sending .stop] }

/-- The messages that were posted. -/
def messages (v : FileLoop) : List FileChunk := v.events.filterMap FileEvent.message?

@[simp]
theorem messages_initial (f : ReadableFile) :
    (initial f).messages = [.start f.content.length] := rfl

@[simp]
theorem messages_stop (v : FileLoop) : v.stop.messages = v.messages ++ [.stop] := by
  simp [messages, stop, FileEvent.message?]

end FileLoop

/-- Where a call of `sendFile` is, once the file is open. -/
inductive SendPhase
  /-- Before the test of `s_interruptFile`. -/
  | testing
  /-- The request was seen and is not reset yet. -/
  | resetting
  /-- There was no request: a chunk is read and posted. -/
  | reading
  /-- After the loop. -/
  | stopping
  /-- The end is posted and `s_isChunkingFile` is not reset yet. -/
  | closing
  | returned
deriving DecidableEq

/-- A call of `sendFile`. -/
inductive SendCall
  /-- The file is not opened yet; it is `none` if that will fail. -/
  | opening (file : Option ReadableFile)
  /-- The file could not be opened: the call has thrown. -/
  | failed
  | sending (file : ReadableFile) (phase : SendPhase) (vars : FileLoop)

/-- The static variables of `StreamChunker`. -/
structure SendFlags where
  isChunkingFile : Bool
  interruptFile : Bool

namespace SendCall

/-- The next step of a call: the static variables and the call after it. -/
def next (flags : SendFlags) : SendCall → Option (SendFlags × SendCall)
  | opening none => some (flags, failed)
  | opening (some f) => some (flags, sending f .testing (.initial f))
  | failed => none
  | sending f .testing v =>
    some (flags, sending f (if flags.interruptFile then .resetting else .reading) v)
  | sending f .resetting v => some ({ flags with interruptFile := false }, sending f .stopping v)
  | sending f .reading v =>
    let v := v.turn f
    some (flags, sending f (if v.sentLength = f.content.length then .stopping else .testing) v)
  | sending f .stopping v => some (flags, sending f .closing v.stop)
  | sending f .closing v => some ({ flags with isChunkingFile := false }, sending f .returned v)
  | sending _ .returned _ => none

/-- The file, if the call can open it. -/
def file? : SendCall → Option ReadableFile
  | opening file => file
  | failed => none
  | sending f _ _ => some f

/-- The call has sent what it sends. -/
def Returned : SendCall → Prop
  | sending _ .returned _ => True
  | _ => False

/-- The messages that the call posted. -/
def messages : SendCall → List FileChunk
  | sending _ _ v => v.messages
  | _ => []

/-- A request that is made now is seen by the call, or reset after it has seen one. -/
def TestAhead : SendCall → Prop
  | opening file => file.isSome
  | failed => False
  | sending f phase v =>
    match phase with
    | .testing | .resetting => True
    | .reading => v.sentLength + v.chunkSize < f.content.length
    | .stopping | .closing | .returned => False

instance : DecidablePred TestAhead
  | opening file => inferInstanceAs (Decidable (file.isSome = true))
  | sending _ .reading _ => inferInstanceAs (Decidable (_ < _))
  | sending _ .testing _ | sending _ .resetting _ => .isTrue trivial
  | failed | sending _ .stopping _ | sending _ .closing _ | sending _ .returned _ => .isFalse id

/-- The start message, the whole content of the file and the end message. -/
def Whole (f : ReadableFile) (call : SendCall) : Prop :=
  ∃ chunks : List Bytes, chunks.flatten = f.content ∧
    call.messages = .start f.content.length :: chunks.map .chunk ++ [.stop]

end SendCall

/-- The static variables, and the calls of `sendFile` in the order in which they began. -/
structure FileSends where
  flags : SendFlags
  calls : List SendCall

namespace FileSends

/-- Nothing was sent. -/
def initial : FileSends := ⟨⟨false, false⟩, []⟩

/-- A call of `sendFile` begins. -/
def sendFile (st : FileSends) (file : Option ReadableFile) : FileSends :=
  ⟨{ st.flags with isChunkingFile := true }, st.calls ++ [.opening file]⟩

/-- The call number `t` takes a step. -/
def next (st : FileSends) (t : ℕ) : Option FileSends :=
  (st.calls[t]?.bind fun call => call.next st.flags).map fun (flags, call) =>
    ⟨flags, st.calls.set t call⟩

/-- `interruptFile`. -/
def interruptFile (st : FileSends) : FileSends :=
  if st.flags.isChunkingFile then { st with flags := { st.flags with interruptFile := true } }
  else st

/-- A call of `sendFile` begins or takes a step, or `interruptFile` is called. -/
inductive Label
  | sendFile (file : Option ReadableFile)
  | next (t : ℕ)
  | interruptFile
deriving DecidableEq

/-- Any calls of `sendFile` and `interruptFile`. -/
def lts : LTS FileSends Label where
  init st := st = initial
  step st
    | .sendFile file => some (st.sendFile file)
    | .next t => st.next t
    | .interruptFile => some st.interruptFile

/-- A request that `interruptFile` makes finds a running call that will test for it, and no call
that can open its file begins while another one still has to see a request. -/
def InTime (st : FileSends) : Label → Prop
  | .interruptFile => st.flags.isChunkingFile = true → ∃ call ∈ st.calls, call.TestAhead
  | .sendFile (some _) => st.flags.interruptFile = true → ∀ call ∈ st.calls, ¬ call.TestAhead
  | .sendFile none | .next _ => True

instance (st : FileSends) : ∀ l, Decidable (InTime st l)
  | .interruptFile => inferInstanceAs (Decidable (_ → ∃ call ∈ st.calls, call.TestAhead))
  | .sendFile (some _) => inferInstanceAs (Decidable (_ → ∀ call ∈ st.calls, ¬ call.TestAhead))
  | .sendFile none | .next _ => .isTrue trivial

end FileSends

/-! ### What a call posts -/

theorem take_drop_succ {α : Type*} {l : List α} {k : ℕ} {x : α} {rest : List α}
    (h : l.drop k = x :: rest) : l.take (k + 1) = l.take k ++ [x] ∧ l.drop (k + 1) = rest := by
  have hget : l[k]? = some x := by
    rw [← List.head?_drop, h, List.head?_cons]
  refine ⟨?_, ?_⟩
  · rw [List.take_add_one, hget, Option.toList_some]
  · rw [← List.drop_drop, h, List.drop_one, List.tail_cons]

namespace FileLoop

/-- The first `k` chunks are posted, and the rest of the loop posts the others. -/
structure Posted (f : ReadableFile) (k : ℕ) (v : FileLoop) : Prop where
  messages : v.messages =
    .start f.content.length :: ((StreamChunker.chunks f.content).take k).map .chunk
  chunkSize : v.chunkSize = StreamChunker.chunkSize
  sentLength_le : v.sentLength ≤ f.content.length
  rest : ∃ fuel, f.content.length - v.sentLength < fuel ∧
    StreamChunker.chunksFrom StreamChunker.chunkSize f.content fuel v.sentLength =
      (StreamChunker.chunks f.content).drop k

theorem posted_initial (f : ReadableFile) : Posted f 0 (initial f) where
  messages := by simp
  chunkSize := rfl
  sentLength_le := Nat.zero_le _
  rest := ⟨f.content.length + 1, Nat.lt_succ_self _, rfl⟩

theorem messages_turn (f : ReadableFile) (v : FileLoop) :
    (v.turn f).messages = v.messages ++
      [.chunk ((f.content.drop v.sentLength).take (v.turn f).chunkSize)] := by
  simp only [messages, turn, List.filterMap_append]
  rfl

/-- A turn that is not the last one sends a whole chunk. -/
theorem Posted.turn_of_ne {f : ReadableFile} {k : ℕ} {v : FileLoop} (h : Posted f k v)
    (hne : (v.turn f).sentLength ≠ f.content.length) :
    (v.turn f).chunkSize = StreamChunker.chunkSize ∧
      v.sentLength < (v.turn f).sentLength ∧ (v.turn f).sentLength < f.content.length := by
  have hle := h.sentLength_le
  have hsize : v.chunkSize = 32 * 1024 := h.chunkSize
  simp only [turn] at hne ⊢
  split_ifs at hne ⊢ with hlast
  · -- a shortened chunk goes to the end of the file
    omega
  · exact ⟨h.chunkSize, by omega, by omega⟩

/-- A turn posts the next chunk.  If it is not the last one the loop goes on. -/
theorem Posted.turn {f : ReadableFile} {k : ℕ} {v : FileLoop} (h : Posted f k v) :
    (v.turn f).messages =
        .start f.content.length :: ((StreamChunker.chunks f.content).take (k + 1)).map .chunk ∧
      if (v.turn f).sentLength = f.content.length then
        (StreamChunker.chunks f.content).take (k + 1) = StreamChunker.chunks f.content
      else Posted f (k + 1) (v.turn f) := by
  obtain ⟨fuel, hfuel, hrest⟩ := h.rest
  obtain ⟨fuel, rfl⟩ : ∃ n, fuel = n + 1 := ⟨fuel - 1, by omega⟩
  -- the next chunk of `chunksFrom` is the one that the turn reads
  set chunk := (f.content.drop v.sentLength).take (v.turn f).chunkSize with hchunk
  have hdrop : (StreamChunker.chunks f.content).drop k =
      chunk :: if (v.turn f).sentLength = f.content.length then [] else
        StreamChunker.chunksFrom StreamChunker.chunkSize f.content fuel
          (v.turn f).sentLength := by
    rw [← hrest, ← h.chunkSize]
    simp only [StreamChunker.chunksFrom, hchunk, FileLoop.turn]
    split_ifs <;> rfl
  obtain ⟨htake, hdrop⟩ := take_drop_succ hdrop
  have hmessages : (v.turn f).messages = .start f.content.length ::
      ((StreamChunker.chunks f.content).take (k + 1)).map .chunk := by
    rw [messages_turn, h.messages, htake, List.map_append, List.cons_append]
    rfl
  refine ⟨hmessages, ?_⟩
  split_ifs at hdrop ⊢ with hend
  · rw [List.take_eq_self_iff, ← List.drop_eq_nil_iff, hdrop]
  · obtain ⟨hsize, hlt, hlt'⟩ := h.turn_of_ne hend
    exact ⟨hmessages, hsize, hlt'.le, fuel, by omega, hdrop.symm⟩

end FileLoop

namespace SendCall

/-- What a call posted so far are messages of a run of `sendFile` that is interrupted as `P`
says. -/
def Sends (P : Option ℕ → Prop) : SendCall → Prop
  | opening _ | failed => True
  | sending f phase v =>
    match phase with
    | .testing | .reading => ∃ k, v.Posted f k
    | .resetting => ∃ k, P (some k) ∧ v.messages =
        .start f.content.length :: (f.sent (some k)).chunks.map .chunk
    | .stopping => ∃ i, P i ∧ v.messages =
        .start f.content.length :: (f.sent i).chunks.map .chunk
    | .closing | .returned => ∃ i, P i ∧ v.messages = StreamChunker.sendFile (f.sent i)

/-- The number of steps after which a call has ended. -/
def stepsLeft : SendCall → ℕ
  | opening none => 1
  | opening (some f) => 2 * f.content.length + 5
  | failed => 0
  | sending f phase v =>
    match phase with
    | .testing => 2 * (f.content.length - v.sentLength) + 4
    | .reading => 2 * (f.content.length - v.sentLength) + 3
    | .resetting => 3
    | .stopping => 2
    | .closing => 1
    | .returned => 0

variable {P : Option ℕ → Prop} {flags flags' : SendFlags} {call call' : SendCall}

theorem returned_of_stepsLeft {f : ReadableFile} (hfile : call.file? = some f)
    (h : call.stepsLeft = 0) : call.Returned := by
  cases call with
  | opening file => cases file <;> cases h
  | failed => cases hfile
  | sending f phase v => cases phase <;> trivial

theorem stepsLeft_ne_zero (h : call.TestAhead) : call.stepsLeft ≠ 0 := by
  cases call with
  | opening file => cases file <;> exact Nat.succ_ne_zero _
  | failed => cases h
  | sending f phase v => cases phase <;> first | exact Nat.succ_ne_zero _ | cases h

/-- A call that has not ended can take a step. -/
theorem next_isSome (flags : SendFlags) (h : call.stepsLeft ≠ 0) : (call.next flags).isSome := by
  cases call with
  | opening file => cases file <;> rfl
  | failed => cases h rfl
  | sending f phase v => cases phase <;> first | rfl | cases h rfl

theorem file?_next {f : ReadableFile} (hfile : call.file? = some f)
    (hnext : call.next flags = some (flags', call')) : call'.file? = some f := by
  cases call with
  | opening file =>
    cases hfile
    cases hnext
    rfl
  | failed => cases hfile
  | sending f phase v => cases phase <;> cases hnext <;> exact hfile

/-- Only the reset of a request changes `s_interruptFile`. -/
theorem interruptFile_next (hnext : call.next flags = some (flags', call')) :
    flags'.interruptFile = true → flags.interruptFile = true := by
  intro h
  cases call with
  | opening file => cases file <;> cases hnext <;> exact h
  | failed => cases hnext
  | sending f phase v =>
    cases phase with
    | testing | reading | stopping | closing =>
      cases hnext
      exact h
    | resetting =>
      cases hnext
      cases h
    | returned => cases hnext

/-- A request that the step leaves set is still ahead of the call. -/
theorem testAhead_next (hnext : call.next flags = some (flags', call')) (h : call.TestAhead)
    (hset : flags'.interruptFile = true) : call'.TestAhead := by
  have hflag := interruptFile_next hnext hset
  cases call with
  | opening file =>
    cases file with
    | none => cases h
    | some f =>
      cases hnext
      trivial
  | failed => cases h
  | sending f phase v =>
    cases phase with
    | testing =>
      cases hnext
      rw [if_pos hflag]
      trivial
    | resetting =>
      cases hnext
      cases hset
    | reading =>
      cases hnext
      -- the turn sends a whole chunk and does not reach the end, so there is another test
      have hlt : v.sentLength + v.chunkSize < f.content.length := h
      have hsent : (v.turn f).sentLength = v.sentLength + v.chunkSize := by
        simp only [FileLoop.turn]
        rw [if_neg hlt.le.not_gt]
      rw [if_neg (hsent ▸ hlt.ne)]
      trivial
    | stopping | closing | returned => cases h

/-- A step of a call posts what it should. -/
theorem sends_next (h : call.Sends P) (hP : P none)
    (hset : flags.interruptFile = true → ∀ k, P (some k))
    (hnext : call.next flags = some (flags', call')) :
    call'.Sends P ∧ call'.stepsLeft < call.stepsLeft := by
  cases call with
  | opening file =>
    cases file with
    | none =>
      cases hnext
      exact ⟨trivial, Nat.one_pos⟩
    | some f =>
      cases hnext
      exact ⟨⟨0, FileLoop.posted_initial f⟩, Nat.lt_succ_self _⟩
  | failed => cases hnext
  | sending f phase v =>
    cases phase with
    | testing =>
      cases hnext
      obtain ⟨k, hk⟩ := h
      split_ifs with hflag
      · -- a request after `k` chunks
        exact ⟨⟨k, hset hflag k, hk.messages⟩, by simp only [stepsLeft]; omega⟩
      · exact ⟨⟨k, hk⟩, Nat.lt_succ_self _⟩
    | resetting =>
      cases hnext
      obtain ⟨k, hk, hmessages⟩ := h
      exact ⟨⟨some k, hk, hmessages⟩, Nat.lt_succ_self _⟩
    | reading =>
      cases hnext
      obtain ⟨k, hk⟩ := h
      obtain ⟨hmessages, hrest⟩ := hk.turn
      split_ifs at hrest ⊢ with hend
      · -- the last turn: all chunks are posted
        rw [hrest] at hmessages
        exact ⟨⟨none, hP, hmessages⟩, by simp only [stepsLeft]; omega⟩
      · obtain ⟨-, hlt, hlt'⟩ := hk.turn_of_ne hend
        exact ⟨⟨k + 1, hrest⟩, by simp only [stepsLeft]; omega⟩
    | stopping =>
      cases hnext
      obtain ⟨i, hi, hmessages⟩ := h
      refine ⟨⟨i, hi, ?_⟩, Nat.lt_succ_self _⟩
      rw [FileLoop.messages_stop, hmessages]
      rfl
    | closing =>
      cases hnext
      exact ⟨h, Nat.one_pos⟩
    | returned => cases hnext

/-- A call that was not interrupted has sent the whole file. -/
theorem whole_of_sends {f : ReadableFile} (h : call.Sends (· = none))
    (hfile : call.file? = some f) (hret : call.Returned) : call.Whole f := by
  cases call with
  | opening file => cases hret
  | failed => cases hret
  | sending f' phase v =>
    cases hfile
    cases phase with
    | returned =>
      obtain ⟨i, rfl, hmessages⟩ := h
      have hall : (f.sent none).Complete := SentFile.complete_of_not_interrupted rfl
      exact ⟨_, hall, hmessages⟩
    | testing | resetting | reading | stopping | closing => cases hret

end SendCall

namespace FileSends

variable {st st' : FileSends} {l : Label} {ls : List Label} {t : ℕ} {call : SendCall}
  {f : ReadableFile}

theorem next_eq_some_iff : st.next t = some st' ↔ ∃ call flags call',
    st.calls[t]? = some call ∧ call.next st.flags = some (flags, call') ∧
      st' = ⟨flags, st.calls.set t call'⟩ := by
  simp only [next, Option.map_eq_some_iff, Option.bind_eq_some_iff, Prod.exists]
  constructor
  · rintro ⟨flags, call', ⟨call, hcall, hnext⟩, rfl⟩
    exact ⟨call, flags, call', hcall, hnext, rfl⟩
  · rintro ⟨call, flags, call', hcall, hnext, rfl⟩
    exact ⟨flags, call', ⟨call, hcall, hnext⟩, rfl⟩

/-- What a step does to a call: its own step, or nothing. -/
theorem call_step (hst : lts.step st l = some st') (hcall : st.calls[t]? = some call) :
    (l = .next t ∧ ∃ call', call.next st.flags = some (st'.flags, call') ∧
        st'.calls[t]? = some call') ∨
      l ≠ .next t ∧ st'.calls[t]? = some call := by
  have hlt : t < st.calls.length := (List.getElem?_eq_some_iff.1 hcall).1
  cases l with
  | sendFile file =>
    cases hst
    exact .inr ⟨nofun, (List.getElem?_append_left hlt).trans hcall⟩
  | interruptFile =>
    cases hst
    refine .inr ⟨nofun, ?_⟩
    simp only [interruptFile]
    split_ifs <;> exact hcall
  | next t' =>
    obtain ⟨call₁, flags, call', hcall₁, hnext, rfl⟩ := next_eq_some_iff.1 hst
    by_cases ht : t' = t
    · subst ht
      obtain rfl : call = call₁ := Option.some.inj (hcall.symm.trans hcall₁)
      exact .inl ⟨rfl, call', hnext, List.getElem?_set_self hlt⟩
    · refine .inr ⟨fun h => ht (Label.next.inj h), ?_⟩
      exact (List.getElem?_set_ne ht).trans hcall

/-- Only `interruptFile` makes a request. -/
theorem interruptFile_step (hst : lts.step st l = some st') (hl : l ≠ .interruptFile)
    (hset : st'.flags.interruptFile = true) : st.flags.interruptFile = true := by
  cases l with
  | sendFile file =>
    cases hst
    exact hset
  | interruptFile => exact absurd rfl hl
  | next t =>
    obtain ⟨call, flags, call', -, hnext, rfl⟩ := next_eq_some_iff.1 hst
    exact SendCall.interruptFile_next hnext hset

/-- While no request is made, a call posts what it posts when it is not interrupted, and each of
its steps brings it closer to its end. -/
theorem run_of_no_request (hflag : st.flags.interruptFile = false)
    (hlast : Label.interruptFile ∉ ls) (he : lts.exec st ls = some st')
    (hcall : st.calls[t]? = some call) (hfile : call.file? = some f)
    (hsends : call.Sends (· = none)) :
    ∃ call', st'.calls[t]? = some call' ∧ call'.file? = some f ∧ call'.Sends (· = none) ∧
      call'.stepsLeft + ls.count (.next t) ≤ call.stepsLeft := by
  induction ls generalizing st call with
  | nil =>
    cases he
    exact ⟨call, hcall, hfile, hsends, le_rfl⟩
  | cons l ls ih =>
    obtain ⟨st₁, hst, he₁⟩ := Option.bind_eq_some_iff.1 he
    obtain ⟨hl, hls⟩ := not_or.1 (List.mem_cons.not.1 hlast)
    have hflag₁ : st₁.flags.interruptFile = false := by
      by_contra hset
      rw [Bool.not_eq_false] at hset
      exact absurd (interruptFile_step hst (Ne.symm hl) hset) (by simp [hflag])
    obtain ⟨rfl, call₁, hnext, hcall₁⟩ | ⟨hne, hcall₁⟩ := call_step hst hcall
    · -- the step of the call, which sees no request
      have hset (h : st.flags.interruptFile = true) (k : ℕ) : some k = none := by
        rw [hflag] at h
        cases h
      obtain ⟨hsends₁, hsteps₁⟩ := SendCall.sends_next hsends rfl hset hnext
      obtain ⟨call', hcall', hfile', hsends', hsteps⟩ :=
        ih hflag₁ hls he₁ hcall₁ (SendCall.file?_next hfile hnext) hsends₁
      refine ⟨call', hcall', hfile', hsends', ?_⟩
      rw [List.count_cons_self]
      omega
    · -- a step of something else
      obtain ⟨call', hcall', hfile', hsends', hsteps⟩ := ih hflag₁ hls he₁ hcall₁ hfile hsends
      refine ⟨call', hcall', hfile', hsends', ?_⟩
      rwa [List.count_cons_of_ne hne]

/-- In runs in which the requests come in time, a request that is not reset yet will be seen. -/
theorem exists_testAhead (h : lts.ReachableVia InTime st)
    (hset : st.flags.interruptFile = true) : ∃ call ∈ st.calls, call.TestAhead := by
  induction h with
  | init h =>
    cases h
    cases hset
  | @step st st' l _ hG hst ih =>
    by_cases hl : l = .interruptFile
    · subst hl
      cases hst
      simp only [interruptFile] at hset ⊢
      split_ifs at hset ⊢ with hchunking
      · -- the request is made here, in time
        exact hG hchunking
      · exact ih hset
    · -- the request was there before, and the call that will see it has not passed its test
      obtain ⟨call, hmem, hahead⟩ := ih (interruptFile_step hst hl hset)
      obtain ⟨t, hcall⟩ := List.mem_iff_getElem?.1 hmem
      obtain ⟨-, call', hnext, hcall'⟩ | ⟨-, hcall'⟩ := call_step hst hcall
      · exact ⟨call', List.mem_of_getElem? hcall', SendCall.testAhead_next hnext hahead hset⟩
      · exact ⟨call, List.mem_of_getElem? hcall', hahead⟩

/-- A call that begins in time finds no request. -/
theorem interruptFile_eq_false (h : lts.ReachableVia InTime st)
    (hstart : InTime st (.sendFile (some f))) : st.flags.interruptFile = false := by
  by_contra hset
  rw [Bool.not_eq_false] at hset
  obtain ⟨call, hmem, hahead⟩ := exists_testAhead h hset
  exact hstart hset call hmem hahead

/-- Calls that come one after the other begin in time. -/
theorem inTime_sendFile (file : Option ReadableFile)
    (hended : ∀ call ∈ st.calls, call.stepsLeft = 0) : InTime st (.sendFile file) := by
  cases file with
  | none => trivial
  | some f =>
    intro _ call hmem hahead
    exact absurd (hended call hmem) (SendCall.stepsLeft_ne_zero hahead)

/-- Each call posts messages of one run of `StreamChunker.sendFile`. -/
theorem sends (h : lts.Reachable st) (hcall : call ∈ st.calls) : call.Sends fun _ => True := by
  induction h generalizing call with
  | init h =>
    cases h
    cases hcall
  | @step st st' l _ _ hst ih =>
    cases l with
    | sendFile file =>
      cases hst
      rcases List.mem_append.1 hcall with hcall | hcall
      · exact ih hcall
      · cases List.mem_singleton.1 hcall
        trivial
    | interruptFile =>
      cases hst
      simp only [interruptFile] at hcall
      split_ifs at hcall <;> exact ih hcall
    | next t =>
      obtain ⟨call₁, flags, call', hcall₁, hnext, rfl⟩ := next_eq_some_iff.1 hst
      rcases List.mem_or_eq_of_mem_set hcall with hcall | rfl
      · exact ih hcall
      · have hsends := ih (List.mem_of_getElem? hcall₁)
        exact (SendCall.sends_next hsends trivial (fun _ _ => trivial) hnext).1

/-- **Each call posts the messages of one run** of `StreamChunker.sendFile`, which may be
interrupted. -/
theorem messages_eq_sendFile (h : lts.Reachable st) (hcall : call ∈ st.calls)
    (hfile : call.file? = some f) (hret : call.Returned) :
    ∃ i, call.messages = StreamChunker.sendFile (f.sent i) := by
  have hsends := sends h hcall
  cases call with
  | opening file => cases hret
  | failed => cases hret
  | sending f' phase v =>
    cases hfile
    cases phase with
    | returned =>
      obtain ⟨i, -, hmessages⟩ := hsends
      exact ⟨i, hmessages⟩
    | testing | resetting | reading | stopping | closing => cases hret

/-- **A call that begins after the last request sends the whole file**, in every run in which the
requests come in time: whatever else happens meanwhile, it can take its next step until it returns,
it takes a bounded number of them, and when it has returned it has sent the start message, the
whole content and the end message. -/
theorem sendFile_whole (h : lts.ReachableVia InTime st)
    (hstart : InTime st (.sendFile (some f)))
    (he : lts.exec st (.sendFile (some f) :: ls) = some st')
    (hlast : Label.interruptFile ∉ ls) :
    ∃ call, st'.calls[st.calls.length]? = some call ∧
      (call.Returned → call.Whole f) ∧
      (call.Returned ∨ (lts.step st' (.next st.calls.length)).isSome) ∧
      ls.count (.next st.calls.length) ≤ 2 * f.content.length + 5 := by
  have hflag := interruptFile_eq_false h hstart
  have hbegin : (st.sendFile (some f)).calls[st.calls.length]? = some (.opening (some f)) := by
    simp [sendFile]
  have hflag' : (st.sendFile (some f)).flags.interruptFile = false := hflag
  obtain ⟨call, hcall, hfile, hsends, hsteps⟩ :=
    run_of_no_request hflag' hlast he hbegin rfl trivial
  refine ⟨call, hcall, SendCall.whole_of_sends hsends hfile, ?_, ?_⟩
  · by_cases hleft : call.stepsLeft = 0
    · exact .inl (SendCall.returned_of_stepsLeft hfile hleft)
    · have hnext := SendCall.next_isSome st'.flags hleft
      exact .inr (by simpa [lts, next, hcall] using hnext)
  · have hleft : (SendCall.opening (some f)).stepsLeft = 2 * f.content.length + 5 := rfl
    omega

/-- The file with one byte. -/
def oneByte (b : UInt8) : ReadableFile := ⟨[b], by simp⟩

/-- A transfer that is interrupted before its first chunk, and one that cannot open its file. -/
def seenRun : List Label :=
  [.sendFile (some (oneByte 97)), .next 0, .interruptFile, .next 0, .next 0, .next 0, .next 0,
    .sendFile none, .next 1]

theorem sendFile_whole_seenRun : ∃ st st', lts.exec initial seenRun = some st ∧
    lts.exec st (.sendFile (some (oneByte 98)) :: List.replicate 5 (.next 2)) = some st' ∧
    ∃ call, st'.calls[2]? = some call ∧ call.Returned ∧ call.Whole (oneByte 98) := by
  have hadm : lts.Admits InTime initial seenRun := by decide +kernel
  have hrun : ∃ st st' call, lts.exec initial seenRun = some st ∧ st.calls.length = 2 ∧
      st.InTime (.sendFile (some (oneByte 98))) ∧
      lts.exec st (.sendFile (some (oneByte 98)) :: List.replicate 5 (.next 2)) = some st' ∧
      st'.calls[2]? = some call ∧ call.Returned :=
    ⟨_, _, _, rfl, rfl, by decide, rfl, rfl, trivial⟩
  obtain ⟨st, st', call, hst, hlen, hstart, he, hcall, hret⟩ := hrun
  obtain ⟨call', hcall', hwhole, -⟩ :=
    sendFile_whole (.of_exec (.init rfl) hadm hst) hstart he (by decide)
  rw [hlen, hcall] at hcall'
  obtain rfl := Option.some.inj hcall'
  exact ⟨st, st', hst, he, call, hcall, hret, hwhole hret⟩

/-- The call whose step is next is the last one that began. -/
theorem next_concat (flags : SendFlags) (calls : List SendCall) (call : SendCall) :
    (⟨flags, calls ++ [call]⟩ : FileSends).next calls.length =
      (call.next flags).map fun (flags, call) => ⟨flags, calls ++ [call]⟩ := by
  simp [next]

/-- **A call that finds an old request sends nothing of its file.** -/
theorem truncated (hset : st.flags.interruptFile = true) (f : ReadableFile) :
    ∃ st' call,
      lts.exec st (.sendFile (some f) :: List.replicate 5 (.next st.calls.length)) = some st' ∧
      st'.calls[st.calls.length]? = some call ∧ call.Returned ∧
      call.messages = [.start f.content.length, .stop] := by
  let call := SendCall.sending f .returned (FileLoop.initial f).stop
  refine ⟨⟨⟨false, false⟩, st.calls ++ [call]⟩, call, ?_, List.getElem?_concat_length, trivial,
    by simp [call, SendCall.messages]⟩
  simp [call, LTS.exec, lts, sendFile, List.replicate, next_concat, SendCall.next, hset]

/-- A request that is made after the last test of a transfer. -/
def lateRun : List Label :=
  [.sendFile (some (oneByte 97)), .next 0, .next 0, .next 0, .interruptFile, .next 0, .next 0]

/-- **An old request stops a later transfer.** -/
theorem not_sendFile_whole : ¬ ∀ (st st' : FileSends) (f : ReadableFile) (ls : List Label),
    lts.Reachable st → lts.exec st (.sendFile (some f) :: ls) = some st' →
      Label.interruptFile ∉ ls →
      ∀ call, st'.calls[st.calls.length]? = some call → call.Returned → call.Whole f := by
  intro hwhole
  have hrun : (lts.exec initial lateRun).map (fun st => st.flags.interruptFile) = some true := by
    decide +kernel
  obtain ⟨st, hst, hset⟩ := Option.map_eq_some_iff.1 hrun
  obtain ⟨st', call, he, hcall, hret, hmessages⟩ := truncated hset (oneByte 98)
  have hlast : Label.interruptFile ∉ List.replicate 5 (.next st.calls.length) := by
    simp
  obtain ⟨chunks, hflat, hall⟩ := hwhole st st' (oneByte 98) _ (.of_exec rfl hst) he hlast
    call hcall hret
  -- there is no chunk between the start and the end
  rw [hmessages] at hall
  cases chunks with
  | nil => cases hflat
  | cons chunk chunks =>
    have hlen := congrArg List.length hall
    simp at hlen

end FileSends

end InputLeap
