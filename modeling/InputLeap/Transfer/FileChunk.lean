import InputLeap.Transfer.Reassembly
import InputLeap.Transfer.StreamChunker

/-!
# File transfers into one receiver

A file is sent as a start message with its size, chunks and an end message
(`StreamChunker::sendFile`).  A send that is interrupted leaves out the remaining chunks but still
sends the end message; a send that is started before another has ended, or by another peer, has
its messages interleaved with the other's.  The receiver puts the chunks of all of them together
in one buffer (`FileChunk::assemble`), and a complete file is handled by a later event
(`onFileReceiveCompleted`), which looks at the buffer again.

## Main definitions

* `FileChunk`, `FileChunk.assemble` : the messages and how the receiver handles them.
* `StreamChunker.sendFile` : the messages of one run of `sendFile`.
* `FileStreams.lts` : runs of `sendFile`, the receiver, and the completion events.
* `FileStreams.Unmixed` : a file is reported complete only for the run that alone filled the
  buffer, and accepted only if the buffer was not touched since.

## Main results

* `FileStreams.reachable_abstract` : the runs refine `Reassembly.lts`.
* `FileStreams.received_as_sent` : in unmixed runs what is reported complete, and what is
  accepted, is the whole content of a file that was sent completely.
* `FileStreams.not_received_as_sent` : in general it is not.
-/

namespace InputLeap

/-- A `kMsgDFileTransfer` message. -/
structure FileChunk where
  mark : ℕ
  data : Bytes

namespace FileChunk

/-- The first message: the size of the file. -/
def start (size : ℕ) : FileChunk := ⟨DataTransfer.dataStart.toNat, sizeToString size⟩

/-- A message with a chunk of the file. -/
def chunk (data : Bytes) : FileChunk := ⟨DataTransfer.dataChunk.toNat, data⟩

/-- The last message. -/
def stop : FileChunk := ⟨DataTransfer.dataEnd.toNat, []⟩

/-- What `assemble` is given by reference: the members of the receiver. -/
structure Received where
  /-- The bytes received since the last start (`m_receivedFileData`). -/
  data : Bytes
  /-- The size in the last start (`m_expectedFileSize`). -/
  expectedSize : ℕ

/-- Handles a message: the new members and what the message amounts to. -/
def assemble (recv : Received) (msg : FileChunk) : Received × DataReceived :=
  match DataTransfer.ofNat? msg.mark with
  | some .dataStart => (⟨[], stringToSizeType msg.data⟩, .start)
  | some .dataChunk => ({ recv with data := recv.data ++ msg.data }, .notFinish)
  | some .dataEnd =>
    if recv.expectedSize ≠ recv.data.length then (recv, .error) else (recv, .finish)
  | none => (recv, .error)

end FileChunk

/-- A run of `sendFile`. -/
structure SentFile where
  /-- The file. -/
  content : Bytes
  /-- The number of chunks sent when the run sees that it is interrupted, if it is. -/
  interrupted : Option ℕ
  /-- Sizes are 64-bit numbers. -/
  size_lt : content.length < 2 ^ 64

namespace SentFile

/-- The chunks that the run sends. -/
def chunks (f : SentFile) : List Bytes :=
  match f.interrupted with
  | none => StreamChunker.chunks f.content
  | some n => (StreamChunker.chunks f.content).take n

/-- The chunks that are sent are the whole file. -/
def Complete (f : SentFile) : Prop := f.chunks.flatten = f.content

theorem chunks_prefix (f : SentFile) : f.chunks.flatten <+: f.content := by
  have hall : (StreamChunker.chunks f.content).flatten = f.content :=
    StreamChunker.flatten_chunks f.content
  unfold chunks
  split
  · rw [hall]
  · rename_i n _
    have htake : (StreamChunker.chunks f.content).take n <+: StreamChunker.chunks f.content :=
      List.take_prefix ..
    obtain ⟨rest, hrest⟩ := htake
    refine ⟨rest.flatten, ?_⟩
    rw [← List.flatten_append, hrest, hall]

/-- A run that is not interrupted sends the whole file. -/
theorem complete_of_not_interrupted {f : SentFile} (h : f.interrupted = none) : f.Complete := by
  simp [Complete, chunks, h, StreamChunker.flatten_chunks]

end SentFile

/-- The messages of a run, in order. -/
def StreamChunker.sendFile (f : SentFile) : List FileChunk :=
  .start f.content.length :: f.chunks.map .chunk ++ [.stop]

/-- A file that `assemble` reports as complete (`kFinish`). -/
structure FinishedFile where
  /-- The stream of messages whose end message completed it. -/
  stream : ℕ
  /-- The buffer at that moment. -/
  data : Bytes
  /-- The run of `sendFile` that the end message comes from. -/
  sent : SentFile

/-- The runs of `sendFile`, the receiver and its completion events. -/
structure FileStreams where
  /-- The runs that were started. -/
  runs : List SentFile
  /-- The messages on their way to the receiver, each with the run that sent it.  Runs that can
  overlap send in different streams. -/
  sending : Queues ℕ (SentFile × FileChunk)
  /-- The members of the receiver. -/
  received : FileChunk.Received
  /-- The `FILE_RECEIVE_COMPLETED` events that are not handled yet, oldest first, each with the
  report that posted it and whether the buffer was changed since. -/
  completions : List (FinishedFile × Bool)
  /-- The files reported as complete, newest first. -/
  finished : List FinishedFile
  /-- The data accepted by `onFileReceiveCompleted`, each with the report it belongs to. -/
  accepted : List (Bytes × FinishedFile)
  /-- The stream that alone filled the buffer since its last start.  The code has no such
  variable. -/
  sole : Option ℕ

namespace FileStreams

/-- Nothing sent and nothing received. -/
def initial : FileStreams := ⟨[], fun _ => [], ⟨[], 0⟩, [], [], [], none⟩

/-- A run of `sendFile` in the stream `r`. -/
def sendFile (st : FileStreams) (r : ℕ) (f : SentFile) : FileStreams :=
  { st with
    runs := f :: st.runs
    sending := st.sending.push r ((StreamChunker.sendFile f).map fun m => (f, m)) }

/-- The receiver handles the next message of the stream `r` (`fileChunkReceived`). -/
def fileChunkReceived (st : FileStreams) (r : ℕ) : Option FileStreams :=
  (st.sending.pop r).map fun ((f, msg), sending) =>
    let (received, result) := FileChunk.assemble st.received msg
    let touched := st.completions.map fun (c, _) => (c, true)
    let st := { st with sending := sending, received := received }
    match result with
    | .start => { st with sole := some r, completions := touched }
    | .notFinish =>
      { st with sole := if st.sole = some r then some r else none, completions := touched }
    | .finish =>
      { st with
        finished := ⟨r, received.data, f⟩ :: st.finished
        completions := st.completions ++ [(⟨r, received.data, f⟩, false)] }
    | .error => st

/-- The size of the buffer is the one announced last (`isReceivedFileSizeValid`). -/
def isReceivedFileSizeValid (st : FileStreams) : Prop :=
  st.received.expectedSize = st.received.data.length

instance (st : FileStreams) : Decidable st.isReceivedFileSizeValid :=
  inferInstanceAs (Decidable (_ = _))

/-- Handles the oldest completion event: the buffer is accepted if its size is right. -/
def onFileReceiveCompleted (st : FileStreams) : Option FileStreams :=
  match st.completions with
  | [] => none
  | (c, _) :: rest =>
    let st := { st with completions := rest }
    some (if st.isReceivedFileSizeValid then
      { st with accepted := (st.received.data, c) :: st.accepted }
    else st)

/-- A run of `sendFile` starts, the receiver handles a message or a completion event. -/
inductive Label
  | sendFile (r : ℕ) (f : SentFile)
  | fileChunkReceived (r : ℕ)
  | onFileReceiveCompleted

/-- The senders and the receiver. -/
def lts : LTS FileStreams Label where
  init st := st = initial
  step st
    | .sendFile r f => some (st.sendFile r f)
    | .fileChunkReceived r => st.fileChunkReceived r
    | .onFileReceiveCompleted => st.onFileReceiveCompleted

/-- When an end message finds a buffer of the expected size, no other stream's start or chunk
was handled since the start of the run whose message it is; when a completion event finds a
buffer of the expected size, no start or chunk was handled since the end message that posted
it. -/
def Unmixed (st : FileStreams) : Label → Prop
  | .sendFile _ _ => True
  | .fileChunkReceived r =>
    ∀ m ∈ (st.sending r).head?, DataTransfer.ofNat? m.2.mark = some .dataEnd →
      st.isReceivedFileSizeValid → st.sole = some r
  | .onFileReceiveCompleted =>
    ∀ c ∈ st.completions.head?, st.isReceivedFileSizeValid → c.2 = false

instance (st : FileStreams) : ∀ l, Decidable (Unmixed st l)
  | .sendFile _ _ => .isTrue trivial
  | .fileChunkReceived r => inferInstanceAs (Decidable (∀ m ∈ (st.sending r).head?, _ → _ → _))
  | .onFileReceiveCompleted => inferInstanceAs (Decidable (∀ c ∈ st.completions.head?, _ → _))

/-- What was reported complete is the whole content of a file that one of the runs sent
completely, and what was accepted is still what was reported. -/
def ReceivedAsSent (st : FileStreams) : Prop :=
  (∀ f ∈ st.finished, ∃ r ∈ st.runs, r.Complete ∧ f.data = r.content) ∧
    ∀ a ∈ st.accepted, a.2 ∈ st.finished ∧ a.1 = a.2.data

/-! ### The runs as an instance of reassembly -/

open Reassembly

/-- The transfer of a run. -/
def transfer (f : SentFile) : Transfer UInt8 := ⟨f.content, f.chunks, f.chunks_prefix⟩

/-- What a message says. -/
def decode (msg : FileChunk) : Msg UInt8 :=
  match DataTransfer.ofNat? msg.mark with
  | some .dataStart => .start (stringToSizeType msg.data)
  | some .dataChunk => .chunk msg.data
  | _ => .stop

/-- A message with the transfer it belongs to. -/
def decodeSent (m : SentFile × FileChunk) : Transfer UInt8 × Msg UInt8 :=
  (transfer m.1, decode m.2)

/-- The streams without the completion events. -/
def abstract (st : FileStreams) : State ℕ UInt8 where
  queue := st.sending.map decodeSent
  data := st.received.data
  expected := st.received.expectedSize
  sole := st.sole
  finished := st.finished.map fun f => ⟨f.stream, transfer f.sent, f.data⟩

/-- The message is one of those that its run sends. -/
def Sent (m : SentFile × FileChunk) : Prop := m.2 ∈ StreamChunker.sendFile m.1

/-- Messages and reports belong to runs that were started. -/
structure RunsOk (st : FileStreams) : Prop where
  sending : st.sending.All fun m => m.1 ∈ st.runs
  finished : ∀ f ∈ st.finished, f.sent ∈ st.runs

theorem decode_sendFile (f : SentFile) :
    (StreamChunker.sendFile f).map (fun m => decodeSent (f, m)) = (transfer f).messages := by
  have hstart : decode (.start f.content.length) = .start (transfer f).content.length := by
    simp [decode, FileChunk.start, transfer, stringToSizeType_sizeToString f.size_lt]
  have hchunk : ∀ d, decode (.chunk d) = .chunk d := fun d => by simp [decode, FileChunk.chunk]
  have hstop : decode .stop = .stop := by simp [decode, FileChunk.stop]
  simp [StreamChunker.sendFile, Transfer.messages, decodeSent, hstart, hstop, hchunk,
    Function.comp_def, transfer]

/-- The messages of a run carry a valid mark. -/
theorem mark_of_mem_sendFile {f : SentFile} {msg : FileChunk}
    (h : msg ∈ StreamChunker.sendFile f) : DataTransfer.ofNat? msg.mark ≠ none := by
  simp only [StreamChunker.sendFile, List.cons_append, List.mem_cons, List.mem_append,
    List.mem_map, List.not_mem_nil, or_false] at h
  obtain rfl | ⟨d, -, rfl⟩ | rfl := h <;> simp [FileChunk.start, FileChunk.chunk, FileChunk.stop]

theorem abstract_sendFile (st : FileStreams) (r : ℕ) (f : SentFile) :
    abstract (st.sendFile r f) = (abstract st).send r (transfer f) := by
  simp only [abstract, sendFile, State.send, Queues.map_push, List.map_map, Function.comp_def,
    decode_sendFile]

/-- Handling a message is the delivery of what it says. -/
theorem abstract_fileChunkReceived {st st' : FileStreams} {r : ℕ} (hsent : st.sending.All Sent)
    (h : st.fileChunkReceived r = some st') : (abstract st).deliver r = some (abstract st') := by
  obtain ⟨⟨⟨f, msg⟩, q⟩, hp, rfl⟩ := Option.map_eq_some_iff.1 h
  have hmem : msg ∈ StreamChunker.sendFile f := hsent.head hp
  have hp' : (abstract st).queue.pop r = some ((transfer f, decode msg), q.map decodeSent) :=
    Queues.map_pop decodeSent hp
  simp only [State.deliver, hp', Option.map_some, Option.some.injEq]
  cases hmark : DataTransfer.ofNat? msg.mark with
  | none => exact absurd hmark (mark_of_mem_sendFile hmem)
  | some mark =>
    cases mark with
    | dataStart => simp [FileChunk.assemble, decode, hmark, State.recv, abstract]
    | dataChunk =>
      simp only [FileChunk.assemble, decode, hmark, State.recv, abstract]
      rfl
    | dataEnd =>
      by_cases hsize : st.received.expectedSize = st.received.data.length <;>
        simp [FileChunk.assemble, decode, hmark, State.recv, abstract, hsize]

theorem abstract_onFileReceiveCompleted {st st' : FileStreams}
    (h : st.onFileReceiveCompleted = some st') : abstract st' = abstract st := by
  unfold onFileReceiveCompleted at h
  split at h
  · cases h
  · simp only [Option.some.injEq] at h
    subst h
    split_ifs <;> rfl

theorem sent_step {st st' : FileStreams} {l : Label} (h : st.sending.All Sent)
    (hst : lts.step st l = some st') : st'.sending.All Sent := by
  cases l with
  | sendFile r f =>
    cases hst
    refine h.push r fun m hm => ?_
    obtain ⟨msg, hmsg, rfl⟩ := List.mem_map.1 hm
    exact hmsg
  | fileChunkReceived r =>
    obtain ⟨⟨m, q⟩, hp, rfl⟩ := Option.map_eq_some_iff.1 hst
    have hq := h.pop hp
    simp only
    split <;> exact hq
  | onFileReceiveCompleted =>
    simp only [lts, onFileReceiveCompleted] at hst
    split at hst
    · cases hst
    · simp only [Option.some.injEq] at hst
      subst hst
      split_ifs <;> exact h

theorem unmixed_abstract {st : FileStreams} {r : ℕ} (hsent : st.sending.All Sent)
    (h : Unmixed st (.fileChunkReceived r)) : Reassembly.Unmixed (abstract st) (.deliver r) := by
  intro t q hq hsize
  obtain ⟨rest, hrest, -⟩ := Queues.pop_eq_some_iff.1 hq
  obtain ⟨m, rest', hm, hdec, -⟩ := List.map_eq_cons_iff.1 hrest
  have hstop : decode m.2 = .stop := congrArg Prod.snd hdec
  have hmem : m.2 ∈ StreamChunker.sendFile m.1 := hsent r m (by simp [hm])
  refine h m (by simp [hm]) ?_ hsize
  unfold decode at hstop
  cases hmark : DataTransfer.ofNat? m.2.mark with
  | none => exact absurd hmark (mark_of_mem_sendFile hmem)
  | some mark => cases mark <;> simp [hmark] at hstop ⊢

/-- **The runs refine the reassembly of transfers in a shared buffer.** -/
theorem reachable_abstract {st : FileStreams} (h : lts.ReachableVia Unmixed st) :
    Reassembly.lts.ReachableVia Reassembly.Unmixed (abstract st) ∧ st.sending.All Sent := by
  have hinit : ∀ st, lts.init st →
      ∃ a, Reassembly.lts.init a ∧ (a = abstract st ∧ st.sending.All Sent) := by
    rintro st rfl
    exact ⟨abstract initial, ⟨fun _ => rfl, rfl⟩, rfl, fun c m hm => by simp [initial] at hm⟩
  obtain ⟨a, ha, rfl, hsent⟩ := h.simulate (H := Reassembly.Unmixed) hinit
    fun st l st' a hR ha hG hst => by
      obtain ⟨rfl, hsent⟩ := hR
      refine ⟨abstract st', ?_, rfl, sent_step hsent hst⟩
      cases l with
      | sendFile r f =>
        cases hst
        rw [abstract_sendFile]
        exact ha.step (l := .send r (transfer f)) trivial rfl
      | fileChunkReceived r =>
        exact ha.step (unmixed_abstract hsent hG) (abstract_fileChunkReceived hsent hst)
      | onFileReceiveCompleted =>
        rw [abstract_onFileReceiveCompleted hst]
        exact ha
  exact ⟨ha, hsent⟩

/-! ### Completion events -/

/-- What the completion events and the accepted data have to do with the reports. -/
structure CompletionsOk (st : FileStreams) : Prop where
  reported : ∀ c ∈ st.completions, c.1 ∈ st.finished
  untouched : ∀ c ∈ st.completions, c.2 = false → st.received.data = c.1.data
  accepted : ∀ a ∈ st.accepted, a.2 ∈ st.finished ∧ a.1 = a.2.data

theorem CompletionsOk.fileChunkReceived {st st' : FileStreams} {r : ℕ} (h : CompletionsOk st)
    (hst : st.fileChunkReceived r = some st') : CompletionsOk st' := by
  obtain ⟨⟨⟨f, msg⟩, q⟩, -, rfl⟩ := Option.map_eq_some_iff.1 hst
  -- a start or a chunk touches all the events
  have htouched : ∀ c ∈ st.completions.map (fun (c, _) => (c, true)),
      c.1 ∈ st.finished ∧ c.2 = true := by
    intro c hc
    obtain ⟨c', hc', rfl⟩ := List.mem_map.1 hc
    exact ⟨h.reported c' hc', rfl⟩
  cases hmark : DataTransfer.ofNat? msg.mark with
  | none =>
    simp only [FileChunk.assemble, hmark]
    exact ⟨h.reported, h.untouched, h.accepted⟩
  | some mark =>
    cases mark with
    | dataStart =>
      simp only [FileChunk.assemble, hmark]
      exact ⟨fun c hc => (htouched c hc).1,
        fun c hc hf => absurd hf (by simp [(htouched c hc).2]), h.accepted⟩
    | dataChunk =>
      simp only [FileChunk.assemble, hmark]
      exact ⟨fun c hc => (htouched c hc).1,
        fun c hc hf => absurd hf (by simp [(htouched c hc).2]), h.accepted⟩
    | dataEnd =>
      by_cases hsize : st.received.expectedSize = st.received.data.length
      · simp only [FileChunk.assemble, hmark, hsize, ne_eq, not_true_eq_false, if_false]
        refine ⟨fun c hc => ?_, fun c hc hf => ?_, fun a ha => ?_⟩
        · rcases List.mem_append.1 hc with hc | hc
          · exact List.mem_cons_of_mem _ (h.reported c hc)
          · simp [List.mem_singleton.1 hc]
        · rcases List.mem_append.1 hc with hc | hc
          · exact h.untouched c hc hf
          · simp [List.mem_singleton.1 hc]
        · exact ⟨List.mem_cons_of_mem _ (h.accepted a ha).1, (h.accepted a ha).2⟩
      · simp only [FileChunk.assemble, hmark, ne_eq, hsize, not_false_eq_true, if_true]
        exact ⟨h.reported, h.untouched, h.accepted⟩

theorem CompletionsOk.onFileReceiveCompleted {st st' : FileStreams} (h : CompletionsOk st)
    (hG : Unmixed st .onFileReceiveCompleted) (hst : st.onFileReceiveCompleted = some st') :
    CompletionsOk st' := by
  unfold FileStreams.onFileReceiveCompleted at hst
  cases hc : st.completions with
  | nil => simp [hc] at hst
  | cons c rest =>
    have hrest : ∀ c' ∈ rest, c' ∈ st.completions := fun c' hc' => by simp [hc, hc']
    simp only [hc, Option.some.injEq] at hst
    subst hst
    split_ifs with hsize
    · have hdata : st.received.data = c.1.data :=
        h.untouched c (by simp [hc]) (hG c (by simp [hc]) hsize)
      refine ⟨fun c' hc' => h.reported c' (hrest c' hc'),
        fun c' hc' => h.untouched c' (hrest c' hc'), fun a ha => ?_⟩
      rcases List.mem_cons.1 ha with rfl | ha
      · exact ⟨h.reported c (by simp [hc]), hdata⟩
      · exact h.accepted a ha
    · exact ⟨fun c' hc' => h.reported c' (hrest c' hc'),
        fun c' hc' => h.untouched c' (hrest c' hc'), h.accepted⟩

theorem completionsOk {st : FileStreams} (h : lts.ReachableVia Unmixed st) :
    CompletionsOk st := by
  refine h.invariant ?_ ?_
  · rintro st rfl
    exact ⟨by simp [initial], by simp [initial], by simp [initial]⟩
  · rintro st l st' hI hG hst
    cases l with
    | sendFile r f =>
      cases hst
      exact ⟨hI.reported, hI.untouched, hI.accepted⟩
    | fileChunkReceived r => exact hI.fileChunkReceived hst
    | onFileReceiveCompleted => exact hI.onFileReceiveCompleted hG hst

theorem runsOk {st : FileStreams} (h : lts.ReachableVia Unmixed st) : RunsOk st := by
  refine h.invariant ?_ ?_
  · rintro st rfl
    exact ⟨fun r m hm => by simp [initial] at hm, by simp [initial]⟩
  · rintro st l st' ⟨hsending, hfinished⟩ - hst
    cases l with
    | sendFile r f =>
      cases hst
      refine ⟨Queues.All.push (fun r' m hm => List.mem_cons_of_mem _ (hsending r' m hm)) r
        fun m hm => ?_, fun f' hf' => List.mem_cons_of_mem _ (hfinished f' hf')⟩
      obtain ⟨msg, -, rfl⟩ := List.mem_map.1 hm
      exact List.mem_cons_self
    | fileChunkReceived r =>
      obtain ⟨⟨m, q⟩, hp, rfl⟩ := Option.map_eq_some_iff.1 hst
      have hm := hsending.head hp
      have hq := hsending.pop hp
      simp only
      split
      · exact ⟨hq, hfinished⟩
      · exact ⟨hq, hfinished⟩
      · refine ⟨hq, fun f hf => ?_⟩
        rcases List.mem_cons.1 hf with rfl | hf
        · exact hm
        · exact hfinished f hf
      · exact ⟨hq, hfinished⟩
    | onFileReceiveCompleted =>
      simp only [lts, FileStreams.onFileReceiveCompleted] at hst
      split at hst
      · cases hst
      · simp only [Option.some.injEq] at hst
        subst hst
        split_ifs <;> exact ⟨hsending, hfinished⟩

/-- **Unmixed files are received as they were sent.**  In every run in which an end message
completes a file only when no other stream's start or chunk was handled since the start of that
file, and a completion event finds a buffer of the expected size only when nothing was received
since it was posted, what is reported complete is the whole content of a file that was sent
completely, and what is accepted is still that content. -/
theorem received_as_sent {st : FileStreams} (h : lts.ReachableVia Unmixed st) :
    ReceivedAsSent st := by
  refine ⟨fun f hf => ?_, (completionsOk h).accepted⟩
  have hfin := Reassembly.finished_eq_content (reachable_abstract h).1
    ⟨f.stream, transfer f.sent, f.data⟩ (List.mem_map.2 ⟨f, hf, rfl⟩)
  exact ⟨f.sent, (runsOk h).finished f hf, hfin.2, hfin.1⟩

theorem length_single (b : UInt8) : [b].length < 2 ^ 64 := by simp

/-- Two senders overlap.  The second one's file is received and accepted between the start and
the chunk of the first one's, which is refused for its size.  The next file of the first sender
is received, but an interrupted run of the second starts before the completion is handled, so
that it is not accepted.  The last file is received and accepted. -/
def overlappingRun : List Label :=
  [.sendFile 1 ⟨[97, 97], none, by decide⟩, .sendFile 2 ⟨[98], none, length_single 98⟩,
    .fileChunkReceived 1, .fileChunkReceived 2, .fileChunkReceived 2, .fileChunkReceived 2,
    .onFileReceiveCompleted, .fileChunkReceived 1, .fileChunkReceived 1,
    .sendFile 1 ⟨[97, 97], none, by decide⟩, .sendFile 2 ⟨[99, 99], some 0, by decide⟩,
    .fileChunkReceived 1, .fileChunkReceived 1, .fileChunkReceived 1,
    .fileChunkReceived 2, .onFileReceiveCompleted, .fileChunkReceived 2,
    .sendFile 1 ⟨[100], none, length_single 100⟩,
    .fileChunkReceived 1, .fileChunkReceived 1, .fileChunkReceived 1, .onFileReceiveCompleted]

theorem received_as_sent_overlapping :
    ∃ st, lts.exec initial overlappingRun = some st ∧
      st.finished.map (fun f => (f.stream, f.data)) = [(1, [100]), (1, [97, 97]), (2, [98])] ∧
      st.accepted.map Prod.fst = [[100], [98]] ∧ ReceivedAsSent st := by
  have hrun : (lts.exec initial overlappingRun).map
      (fun st => (st.finished.map fun f => (f.stream, f.data), st.accepted.map Prod.fst)) =
        some ([(1, [100]), (1, [97, 97]), (2, [98])], [[100], [98]]) := by
    decide +kernel
  obtain ⟨st, hst, heq⟩ := Option.map_eq_some_iff.1 hrun
  obtain ⟨hfin, hacc⟩ := Prod.mk.inj heq
  have hadm : lts.Admits Unmixed initial overlappingRun := by decide +kernel
  exact ⟨st, hst, hfin, hacc, received_as_sent (.of_exec (.init rfl) hadm hst)⟩

/-- Three files of one, two and one bytes whose messages are interleaved: the chunks of the
first and the third fill the buffer to the size announced for the second. -/
def mixedRun : List Label :=
  [.sendFile 1 ⟨[97], none, length_single 97⟩, .sendFile 3 ⟨[99], none, length_single 99⟩,
    .sendFile 2 ⟨[98, 98], none, by decide⟩, .fileChunkReceived 1, .fileChunkReceived 3,
    .fileChunkReceived 2, .fileChunkReceived 1, .fileChunkReceived 3, .fileChunkReceived 1]

/-- **Files mix**: a file is reported complete that nobody sent. -/
theorem not_received_as_sent : ¬ ∀ st, lts.Reachable st → ReceivedAsSent st := by
  intro h
  have hrun : (lts.exec initial mixedRun).map
      (fun st => (st.finished.map FinishedFile.data, st.runs.map SentFile.content)) =
        some ([[97, 99]], [[98, 98], [99], [97]]) := by
    decide +kernel
  obtain ⟨st, hst, heq⟩ := Option.map_eq_some_iff.1 hrun
  obtain ⟨hfin, hruns⟩ := Prod.mk.inj heq
  cases hf : st.finished with
  | nil => simp [hf] at hfin
  | cons f fs =>
    obtain ⟨r, hr, -, hdata⟩ := (h st (LTS.Reachable.of_exec rfl hst)).1 f (by simp [hf])
    simp only [hf, List.map_cons, List.cons.injEq] at hfin
    have hmem : r.content ∈ st.runs.map SentFile.content := List.mem_map_of_mem hr
    rw [hruns, ← hdata, hfin.1] at hmem
    exact absurd hmem (by decide)

end FileStreams

end InputLeap
