import InputLeap.Transfer.Reassembly
import InputLeap.Transfer.StreamChunker

/-!
# Clipboard streams at the server

A client sends a clipboard as a start message with the size, chunks and an end message
(`StreamChunker::sendClipboard`); the messages of one client arrive in order and those of
different clients in any interleaving.  The server puts the chunks together in
`ClipboardChunk::assemble`, whose buffer `dataCached` and expected size are static variables:
all the clients share them.

## Main definitions

* `ClipboardChunk`, `ClipboardChunk.assemble` : the messages and how the server handles them.
* `StreamChunker.sendClipboard` : the messages a client sends for a clipboard.
* `ClipboardStreams.lts` : the clients sending and the server receiving.
* `ClipboardStreams.Unmixed` : a clipboard is finished only by the client that alone filled the
  shared buffer.

## Main results

* `ClipboardStreams.reachable_abstract` : the streams refine `Reassembly.lts`.
* `ClipboardStreams.stored_eq_sent` : in unmixed runs the bytes stored are those sent.
* `ClipboardStreams.not_stored_eq_sent` : in general they are not.
-/

namespace InputLeap

/-- A `kMsgDClipboard` message. -/
structure ClipboardChunk where
  id : ℕ
  sequence : ℕ
  mark : ℕ
  data : Bytes

namespace ClipboardChunk

/-- The first message: the size of the clipboard. -/
def start (id : ClipboardID) (sequence size : ℕ) : ClipboardChunk :=
  ⟨id.toNat, sequence, DataTransfer.dataStart.toNat, sizeToString size⟩

/-- A message with a chunk of the clipboard. -/
def chunk (id : ClipboardID) (sequence : ℕ) (data : Bytes) : ClipboardChunk :=
  ⟨id.toNat, sequence, DataTransfer.dataChunk.toNat, data⟩

/-- The last message. -/
def stop (id : ClipboardID) (sequence : ℕ) : ClipboardChunk :=
  ⟨id.toNat, sequence, DataTransfer.dataEnd.toNat, []⟩

/-- The static variables of `recvClipboard` and `assemble`. -/
structure Cache where
  /-- The bytes received since the last start. -/
  dataCached : Bytes
  /-- The size in the last start (`s_expectedSize`). -/
  expectedSize : ℕ

/-- Handles a message: the new static variables and what the message amounts to. -/
def assemble (cache : Cache) (msg : ClipboardChunk) : Cache × DataReceived :=
  match DataTransfer.ofNat? msg.mark with
  | some .dataStart => (⟨[], stringToSizeType msg.data⟩, .start)
  | some .dataChunk => ({ cache with dataCached := cache.dataCached ++ msg.data }, .notFinish)
  | some .dataEnd =>
    if ClipboardID.ofNat? msg.id = none then (cache, .error)
    else if cache.expectedSize ≠ cache.dataCached.length then (cache, .error)
    else (cache, .finish)
  | none => (cache, .error)

end ClipboardChunk

/-- The arguments of a call of `sendClipboard`. -/
structure SentClipboard where
  id : ClipboardID
  sequence : ℕ
  data : Bytes
  /-- Sizes are 64-bit numbers. -/
  size_lt : data.length < 2 ^ 64

/-- The messages of a clipboard, in order. -/
def StreamChunker.sendClipboard (c : SentClipboard) : List ClipboardChunk :=
  .start c.id c.sequence c.data.length ::
    (StreamChunker.chunks c.data).map (.chunk c.id c.sequence) ++ [.stop c.id c.sequence]

/-- A clipboard the server reports as received (`kFinish`). -/
structure FinishedClipboard where
  /-- The client whose message completed it. -/
  client : ℕ
  id : ClipboardID
  sequence : ℕ
  /-- The bytes that are stored. -/
  stored : Bytes
  /-- The call of `sendClipboard` that the last message comes from. -/
  sent : SentClipboard

/-- The clipboards on their way to the server and what the server received. -/
structure ClipboardStreams where
  /-- The messages from a client, each with the call that sent it. -/
  sending : Queues ℕ (SentClipboard × ClipboardChunk)
  /-- The static variables. -/
  cache : ClipboardChunk.Cache
  /-- The clipboards reported as received, newest first. -/
  finished : List FinishedClipboard
  /-- The client that alone filled the buffer since its last start.  The code has no such
  variable. -/
  sole : Option ℕ

namespace ClipboardStreams

/-- Nothing sent and nothing received. -/
def initial : ClipboardStreams := ⟨fun _ => [], ⟨[], 0⟩, [], none⟩

/-- The client `c` calls `sendClipboard`. -/
def sendClipboard (st : ClipboardStreams) (c : ℕ) (sent : SentClipboard) : ClipboardStreams :=
  { st with
    sending := st.sending.push c ((StreamChunker.sendClipboard sent).map fun m => (sent, m)) }

/-- The server handles the next message of the client `c` (`recvClipboard`). -/
def recvClipboard (st : ClipboardStreams) (c : ℕ) : Option ClipboardStreams :=
  (st.sending.pop c).map fun ((sent, msg), sending) =>
    let (cache, r) := ClipboardChunk.assemble st.cache msg
    { sending := sending
      cache := cache
      finished :=
        match r, ClipboardID.ofNat? msg.id with
        | .finish, some id => ⟨c, id, msg.sequence, cache.dataCached, sent⟩ :: st.finished
        | _, _ => st.finished
      sole :=
        match r with
        | .start => some c
        | .notFinish => if st.sole = some c then some c else none
        | _ => st.sole }

/-- A client sends a clipboard or the server handles a message. -/
inductive Label
  | sendClipboard (c : ℕ) (sent : SentClipboard)
  | recvClipboard (c : ℕ)

/-- The clients and the server. -/
def lts : LTS ClipboardStreams Label where
  init st := st = initial
  step st
    | .sendClipboard c sent => some (st.sendClipboard c sent)
    | .recvClipboard c => st.recvClipboard c

/-- When an end message finds a buffer of the expected size, no other client's start or chunk
was handled since the start of the client whose message it is. -/
def Unmixed (st : ClipboardStreams) : Label → Prop
  | .sendClipboard _ _ => True
  | .recvClipboard c =>
    ∀ m ∈ (st.sending c).head?, DataTransfer.ofNat? m.2.mark = some .dataEnd →
      st.cache.expectedSize = st.cache.dataCached.length → st.sole = some c

instance (st : ClipboardStreams) : ∀ l, Decidable (Unmixed st l)
  | .sendClipboard _ _ => .isTrue trivial
  | .recvClipboard c => inferInstanceAs (Decidable (∀ m ∈ (st.sending c).head?, _ → _ → _))

/-! ### The streams as an instance of reassembly -/

open Reassembly

/-- The transfer that a call of `sendClipboard` starts. -/
def transfer (c : SentClipboard) : Transfer UInt8 where
  content := c.data
  chunks := StreamChunker.chunks c.data
  chunks_prefix := by rw [StreamChunker.flatten_chunks]

/-- What a message says. -/
def decode (msg : ClipboardChunk) : Msg UInt8 :=
  match DataTransfer.ofNat? msg.mark with
  | some .dataStart => .start (stringToSizeType msg.data)
  | some .dataChunk => .chunk msg.data
  | _ => .stop

/-- A message with the transfer it belongs to. -/
def decodeSent (m : SentClipboard × ClipboardChunk) : Transfer UInt8 × Msg UInt8 :=
  (transfer m.1, decode m.2)

/-- The streams without clipboard ids and sequence numbers. -/
def abstract (st : ClipboardStreams) : State ℕ UInt8 where
  queue := st.sending.map decodeSent
  data := st.cache.dataCached
  expected := st.cache.expectedSize
  sole := st.sole
  finished := st.finished.map fun f => ⟨f.client, transfer f.sent, f.stored⟩

/-- The message is one of those that its call sends. -/
def Sent (m : SentClipboard × ClipboardChunk) : Prop := m.2 ∈ StreamChunker.sendClipboard m.1

theorem decode_sendClipboard (sent : SentClipboard) :
    (StreamChunker.sendClipboard sent).map (fun m => decodeSent (sent, m)) =
      (transfer sent).messages := by
  have hstart : decode (.start sent.id sent.sequence sent.data.length) =
      .start (transfer sent).content.length := by
    simp [decode, ClipboardChunk.start, transfer, stringToSizeType_sizeToString sent.size_lt]
  have hchunk : ∀ d, decode (.chunk sent.id sent.sequence d) = .chunk d := fun d => by
    simp [decode, ClipboardChunk.chunk]
  have hstop : decode (.stop sent.id sent.sequence) = .stop := by
    simp [decode, ClipboardChunk.stop]
  simp [StreamChunker.sendClipboard, Transfer.messages, decodeSent, hstart, hstop, hchunk,
    Function.comp_def, transfer]

/-- The messages of a clipboard carry its id. -/
theorem id_of_mem_sendClipboard {sent : SentClipboard} {msg : ClipboardChunk}
    (h : msg ∈ StreamChunker.sendClipboard sent) : msg.id = sent.id.toNat := by
  simp only [StreamChunker.sendClipboard, List.cons_append, List.mem_cons, List.mem_append,
    List.mem_map, List.not_mem_nil, or_false] at h
  obtain rfl | ⟨d, -, rfl⟩ | rfl := h <;> rfl

/-- The messages of a clipboard carry a valid mark. -/
theorem mark_of_mem_sendClipboard {sent : SentClipboard} {msg : ClipboardChunk}
    (h : msg ∈ StreamChunker.sendClipboard sent) : DataTransfer.ofNat? msg.mark ≠ none := by
  simp only [StreamChunker.sendClipboard, List.cons_append, List.mem_cons, List.mem_append,
    List.mem_map, List.not_mem_nil, or_false] at h
  obtain rfl | ⟨d, -, rfl⟩ | rfl := h <;>
    simp [ClipboardChunk.start, ClipboardChunk.chunk, ClipboardChunk.stop]

theorem abstract_sendClipboard (st : ClipboardStreams) (c : ℕ) (sent : SentClipboard) :
    abstract (st.sendClipboard c sent) = (abstract st).send c (transfer sent) := by
  simp only [abstract, sendClipboard, State.send, Queues.map_push, List.map_map,
    Function.comp_def, decode_sendClipboard]

/-- Handling a message is the delivery of what it says. -/
theorem abstract_recvClipboard {st st' : ClipboardStreams} {c : ℕ} (hsent : st.sending.All Sent)
    (h : st.recvClipboard c = some st') : (abstract st).deliver c = some (abstract st') := by
  obtain ⟨⟨⟨sent, msg⟩, q⟩, hp, rfl⟩ := Option.map_eq_some_iff.1 h
  have hmem : msg ∈ StreamChunker.sendClipboard sent := hsent.head hp
  have hid : ClipboardID.ofNat? msg.id = some sent.id := by
    rw [id_of_mem_sendClipboard hmem, ClipboardID.ofNat?_toNat]
  have hp' : (abstract st).queue.pop c = some ((transfer sent, decode msg), q.map decodeSent) :=
    Queues.map_pop decodeSent hp
  simp only [State.deliver, hp', Option.map_some, Option.some.injEq]
  cases hmark : DataTransfer.ofNat? msg.mark with
  | none => exact absurd hmark (mark_of_mem_sendClipboard hmem)
  | some mark =>
    cases mark with
    | dataStart => simp [ClipboardChunk.assemble, decode, hmark, State.recv, abstract]
    | dataChunk =>
      simp only [ClipboardChunk.assemble, decode, hmark, State.recv, abstract]
      rfl
    | dataEnd =>
      by_cases hsize : st.cache.expectedSize = st.cache.dataCached.length <;>
        simp [ClipboardChunk.assemble, decode, hmark, State.recv, abstract, hid, hsize]

theorem sent_step {st st' : ClipboardStreams} {l : Label} (h : st.sending.All Sent)
    (hst : lts.step st l = some st') : st'.sending.All Sent := by
  cases l with
  | sendClipboard c sent =>
    cases hst
    refine h.push c fun m hm => ?_
    obtain ⟨msg, hmsg, rfl⟩ := List.mem_map.1 hm
    exact hmsg
  | recvClipboard c =>
    obtain ⟨⟨m, q⟩, hp, rfl⟩ := Option.map_eq_some_iff.1 hst
    exact h.pop hp

theorem unmixed_abstract {st : ClipboardStreams} {c : ℕ} (hsent : st.sending.All Sent)
    (h : Unmixed st (.recvClipboard c)) : Reassembly.Unmixed (abstract st) (.deliver c) := by
  intro t q hq hsize
  obtain ⟨rest, hrest, -⟩ := Queues.pop_eq_some_iff.1 hq
  obtain ⟨m, rest', hm, hdec, -⟩ := List.map_eq_cons_iff.1 hrest
  have hstop : decode m.2 = .stop := congrArg Prod.snd hdec
  have hmem : m.2 ∈ StreamChunker.sendClipboard m.1 := hsent c m (by simp [hm])
  refine h m (by simp [hm]) ?_ hsize
  unfold decode at hstop
  cases hmark : DataTransfer.ofNat? m.2.mark with
  | none => exact absurd hmark (mark_of_mem_sendClipboard hmem)
  | some mark => cases mark <;> simp [hmark] at hstop ⊢

/-- **The streams refine the reassembly of transfers in a shared buffer.** -/
theorem reachable_abstract {st : ClipboardStreams} (h : lts.ReachableVia Unmixed st) :
    Reassembly.lts.ReachableVia Reassembly.Unmixed (abstract st) ∧ st.sending.All Sent := by
  have hinit : ∀ st, lts.init st →
      ∃ a, Reassembly.lts.init a ∧ (a = abstract st ∧ st.sending.All Sent) := by
    rintro st rfl
    exact ⟨abstract initial, ⟨fun _ => rfl, rfl⟩, rfl, fun c m hm => by simp [initial] at hm⟩
  obtain ⟨a, ha, rfl, hsent⟩ := h.simulate (H := Reassembly.Unmixed) hinit
      fun st l st' a hR ha hG hst => by
    obtain ⟨rfl, hsent⟩ := hR
    refine ⟨abstract st', ?_, rfl, sent_step hsent hst⟩
    cases l with
    | sendClipboard c sent =>
      cases hst
      rw [abstract_sendClipboard]
      exact ha.step (l := .send c (transfer sent)) trivial rfl
    | recvClipboard c =>
      exact ha.step (unmixed_abstract hsent hG) (abstract_recvClipboard hsent hst)
  exact ⟨ha, hsent⟩

/-- **Unmixed clipboards are stored as they were sent.**  In every run in which an end message
completes a clipboard only when no other client's start or chunk was handled since the start of
that clipboard, the bytes stored are those given to `sendClipboard`. -/
theorem stored_eq_sent {st : ClipboardStreams} (h : lts.ReachableVia Unmixed st) :
    ∀ f ∈ st.finished, f.stored = f.sent.data := by
  intro f hf
  have hfin := Reassembly.finished_eq_content (reachable_abstract h).1
    ⟨f.client, transfer f.sent, f.stored⟩
    (List.mem_map.2 ⟨f, hf, rfl⟩)
  exact hfin.1

/-- The messages of two clients overlap: the start of the first client's clipboard is handled
before the second client's clipboard, its chunk and its end behind it, so that it is refused for
its size.  The first client's next clipboard is stored. -/
def overlappingRun : List Label :=
  [.sendClipboard 1 ⟨.clipboard, 1, [120, 120, 120], by decide⟩,
    .sendClipboard 2 ⟨.selection, 1, [121, 121], by decide⟩,
    .recvClipboard 1, .recvClipboard 2, .recvClipboard 2, .recvClipboard 2,
    .sendClipboard 1 ⟨.clipboard, 2, [122, 122], by decide⟩,
    .recvClipboard 1, .recvClipboard 1, .recvClipboard 1, .recvClipboard 1, .recvClipboard 1]

theorem stored_eq_sent_overlapping :
    ∃ st, lts.exec initial overlappingRun = some st ∧
      st.finished.map (fun f => (f.client, f.sequence, f.sent.data)) =
        [(1, 2, [122, 122]), (2, 1, [121, 121])] ∧
      ∀ f ∈ st.finished, f.stored = f.sent.data := by
  have hrun : (lts.exec initial overlappingRun).map
      (fun st => st.finished.map fun f => (f.client, f.sequence, f.sent.data)) =
        some [(1, 2, [122, 122]), (2, 1, [121, 121])] := by
    decide +kernel
  obtain ⟨st, hst, hfin⟩ := Option.map_eq_some_iff.1 hrun
  have hadm : lts.Admits Unmixed initial overlappingRun := by decide +kernel
  exact ⟨st, hst, hfin, stored_eq_sent (.of_exec (.init rfl) hadm hst)⟩

/-- The messages of two clients with three bytes each. -/
def mixedRun : List Label :=
  [.sendClipboard 1 ⟨.clipboard, 1, [97, 97, 97], by decide⟩,
    .sendClipboard 2 ⟨.clipboard, 1, [98, 98, 98], by decide⟩,
    .recvClipboard 1, .recvClipboard 1, .recvClipboard 2, .recvClipboard 2, .recvClipboard 2,
    .recvClipboard 1]

/-- **Streams of different clients mix**: the second client's clipboard is stored as the first
client's. -/
theorem not_stored_eq_sent :
    ¬ ∀ st, lts.Reachable st → ∀ f ∈ st.finished, f.stored = f.sent.data := by
  intro h
  have hrun : (lts.exec initial mixedRun).map
      (fun st => st.finished.map fun f => (f.stored, f.sent.data)) =
        some [([98, 98, 98], [97, 97, 97]), ([98, 98, 98], [98, 98, 98])] := by
    decide +kernel
  obtain ⟨st, hst, hfin⟩ := Option.map_eq_some_iff.1 hrun
  have hall := h st (LTS.Reachable.of_exec rfl hst)
  cases hf : st.finished with
  | nil => simp [hf] at hfin
  | cons f fs =>
    have heq := hall f (by simp [hf])
    simp only [hf, List.map_cons, List.cons.injEq, Prod.mk.injEq] at hfin
    rw [hfin.1.1, hfin.1.2] at heq
    exact absurd heq (by decide)

end ClipboardStreams

end InputLeap
