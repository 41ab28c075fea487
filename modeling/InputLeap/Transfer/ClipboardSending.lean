import InputLeap.LTS.Search
import InputLeap.Transfer.ClipboardChunk

/-!
# Sending one clipboard

The loop of `StreamChunker::sendClipboard`, which posts the messages of a clipboard, and what
`ClipboardChunk::assemble` makes of them.

## Main definitions

* `StreamChunker.sendClipboardNext` : one turn of the loop.
* `ClipboardChunk.assembleAll` : the answers to a sequence of messages.

## Main results

* `StreamChunker.run_sendClipboard` : the loop ends.
* `StreamChunker.sendClipboard_reassembles` : the chunks are small, together they are the data, and
  the receiver has them at the end message whatever it had before.
-/

namespace InputLeap

/-- What `sendClipboard` posts. -/
inductive ClipboardEvent
  | keepAlive
  | sending (chunk : ClipboardChunk)

namespace ClipboardEvent

/-- The message that is sent, if it is one of the clipboard. -/
def message? : ClipboardEvent → Option ClipboardChunk
  | keepAlive => none
  | sending chunk => some chunk

end ClipboardEvent

namespace ClipboardChunk

/-- Handles messages: the static variables after them, and what each amounts to. -/
def assembleAll (cache : Cache) : List ClipboardChunk → Cache × List DataReceived
  | [] => (cache, [])
  | msg :: msgs =>
    let (cache, r) := assemble cache msg
    let (cache, rs) := assembleAll cache msgs
    (cache, r :: rs)

end ClipboardChunk

namespace StreamChunker

/-- The local variables of the loop, and what was posted. -/
structure ClipboardLoop where
  sentLength : ℕ
  chunkSize : ℕ
  events : List ClipboardEvent

variable (c : SentClipboard)

/-- Before the loop. -/
def sendClipboardStart : ClipboardLoop :=
  ⟨0, chunkSize, [.sending (.start c.id c.sequence c.data.length)]⟩

/-- One turn of the loop; after the last one the end message is posted. -/
def sendClipboardNext (s : ClipboardLoop) : ClipboardLoop ⊕ List ClipboardEvent :=
  let size := c.data.length
  let chunkSize := if s.sentLength + s.chunkSize > size then size - s.sentLength else s.chunkSize
  let chunk := (c.data.drop s.sentLength).take chunkSize
  let events := s.events ++ [.keepAlive, .sending (.chunk c.id c.sequence chunk)]
  let sentLength := s.sentLength + chunkSize
  if sentLength = size then .inr (events ++ [.sending (.stop c.id c.sequence)])
  else .inl ⟨sentLength, chunkSize, events⟩

/-! ### The loop -/

variable {c} {sentLength fuel : ℕ} {events : List ClipboardEvent} {cache : ClipboardChunk.Cache}

/-- What is posted for a chunk. -/
def chunkEvents (c : SentClipboard) (chunk : Bytes) : List ClipboardEvent :=
  [.keepAlive, .sending (.chunk c.id c.sequence chunk)]

/-- **The loop ends**, and posts the chunks that are left and the end message. -/
theorem run_sendClipboardNext (hfuel : c.data.length - sentLength < fuel)
    (hsent : sentLength ≤ c.data.length) :
    Search.run (sendClipboardNext c) fuel ⟨sentLength, chunkSize, events⟩ =
      some (events ++ (chunksFrom chunkSize c.data fuel sentLength).flatMap (chunkEvents c) ++
        [.sending (.stop c.id c.sequence)]) := by
  induction fuel generalizing sentLength events with
  | zero => omega
  | succ fuel ih =>
    have hpos : 0 < chunkSize := by decide
    by_cases hlast : sentLength + chunkSize > c.data.length
    · -- the last chunk is shortened
      have hend : sentLength + (c.data.length - sentLength) = c.data.length := by omega
      have hnext : sendClipboardNext c ⟨sentLength, chunkSize, events⟩ =
          .inr (events ++ chunkEvents c ((c.data.drop sentLength).take
            (c.data.length - sentLength)) ++ [.sending (.stop c.id c.sequence)]) := by
        simp only [sendClipboardNext, chunkEvents, if_pos hlast, if_pos hend]
      rw [Search.run_succ_of_inr hnext]
      simp only [chunksFrom, if_pos hlast, if_pos hend, List.flatMap_singleton]
    · by_cases hend : sentLength + chunkSize = c.data.length
      · -- the last chunk is a whole one
        have hnext : sendClipboardNext c ⟨sentLength, chunkSize, events⟩ =
            .inr (events ++ chunkEvents c ((c.data.drop sentLength).take chunkSize) ++
              [.sending (.stop c.id c.sequence)]) := by
          simp only [sendClipboardNext, chunkEvents, if_neg hlast, if_pos hend]
        rw [Search.run_succ_of_inr hnext]
        simp only [chunksFrom, if_neg hlast, if_pos hend, List.flatMap_singleton]
      · -- the loop goes on
        have hnext : sendClipboardNext c ⟨sentLength, chunkSize, events⟩ =
            .inl ⟨sentLength + chunkSize, chunkSize,
              events ++ chunkEvents c ((c.data.drop sentLength).take chunkSize)⟩ := by
          simp only [sendClipboardNext, chunkEvents, if_neg hlast, if_neg hend]
        rw [Search.run_succ_of_inl hnext, ih (by omega) (by omega)]
        simp only [chunksFrom, if_neg hlast, if_neg hend, List.flatMap_cons, List.append_assoc]

/-- Chunks have at most the size of a chunk. -/
theorem length_of_mem_chunksFrom {size : ℕ} {data chunk : Bytes}
    (h : chunk ∈ chunksFrom size data fuel sentLength) : chunk.length ≤ size := by
  induction fuel generalizing sentLength with
  | zero => cases h
  | succ fuel ih =>
    simp only [chunksFrom] at h
    have htake : ((data.drop sentLength).take (if sentLength + size > data.length then
        data.length - sentLength else size)).length ≤ size := by
      rw [List.length_take]
      split_ifs
      · omega
      · omega
    generalize (if sentLength + size > data.length then data.length - sentLength else size) = n
      at h htake
    split_ifs at h
    · rw [List.mem_singleton.1 h]
      exact htake
    · rcases List.mem_cons.1 h with rfl | h
      · exact htake
      · exact ih h

/-- The whole call posts the messages of the clipboard. -/
theorem run_sendClipboard (c : SentClipboard) : ∃ events,
    Search.run (sendClipboardNext c) (c.data.length + 1) (sendClipboardStart c) = some events ∧
      events.filterMap ClipboardEvent.message? = sendClipboard c := by
  refine ⟨_, run_sendClipboardNext (by omega) (Nat.zero_le _), ?_⟩
  rw [List.filterMap_append, List.filterMap_append, List.filterMap_flatMap]
  have hchunks : (chunks c.data).flatMap
      (fun chunk => (chunkEvents c chunk).filterMap ClipboardEvent.message?) =
        (chunks c.data).map (.chunk c.id c.sequence) := List.map_eq_flatMap.symm
  exact congrArg (fun msgs => _ :: msgs ++ _) hchunks

/-! ### The receiver -/

/-- The receiver has the chunks behind what it had. -/
theorem assembleAll_chunks (chunks : List Bytes) (msgs : List ClipboardChunk) :
    ClipboardChunk.assembleAll cache (chunks.map (.chunk c.id c.sequence) ++ msgs) =
      ((ClipboardChunk.assembleAll ⟨cache.dataCached ++ chunks.flatten, cache.expectedSize⟩ msgs).1,
        List.replicate chunks.length .notFinish ++
          (ClipboardChunk.assembleAll ⟨cache.dataCached ++ chunks.flatten, cache.expectedSize⟩
            msgs).2) := by
  induction chunks generalizing cache with
  | nil =>
    rw [List.flatten_nil, List.append_nil]
    rfl
  | cons chunk chunks ih =>
    have hchunk : ClipboardChunk.assemble cache (.chunk c.id c.sequence chunk) =
        (⟨cache.dataCached ++ chunk, cache.expectedSize⟩, .notFinish) := by
      simp [ClipboardChunk.assemble, ClipboardChunk.chunk]
    rw [List.map_cons, List.cons_append, ClipboardChunk.assembleAll, hchunk]
    dsimp only
    rw [ih, List.flatten_cons, List.append_assoc]
    rfl

/-- **A clipboard is put together again.** The loop of `sendClipboard` ends. What it posts are a
start message with the size, chunks of at most `g_chunkSize` bytes that together are the data, and
an end message. Whatever the receiver had before, it reports the clipboard as received at the end
message and not before, and then has the data. -/
theorem sendClipboard_reassembles (c : SentClipboard) :
    ∃ (fuel : ℕ) (events : List ClipboardEvent) (chunks : List Bytes),
    Search.run (sendClipboardNext c) fuel (sendClipboardStart c) = some events ∧
    events.filterMap ClipboardEvent.message? = .start c.id c.sequence c.data.length ::
      chunks.map (.chunk c.id c.sequence) ++ [.stop c.id c.sequence] ∧
    stringToSizeType (ClipboardChunk.start c.id c.sequence c.data.length).data = c.data.length ∧
    (∀ chunk ∈ chunks, chunk.length ≤ 32 * 1024) ∧ chunks.flatten = c.data ∧
    ∀ cache, ClipboardChunk.assembleAll cache (events.filterMap ClipboardEvent.message?) =
      (⟨c.data, c.data.length⟩,
        .start :: (List.replicate chunks.length .notFinish ++ [.finish])) := by
  obtain ⟨events, hrun, hevents⟩ := run_sendClipboard c
  have hsize : stringToSizeType (ClipboardChunk.start c.id c.sequence c.data.length).data =
      c.data.length := stringToSizeType_sizeToString c.size_lt
  refine ⟨_, events, chunks c.data, hrun, hevents, hsize, ?_, flatten_chunks c.data, ?_⟩
  · intro chunk hchunk
    exact length_of_mem_chunksFrom hchunk
  · intro cache
    have hstart : ClipboardChunk.assemble cache (.start c.id c.sequence c.data.length) =
        (⟨[], c.data.length⟩, .start) := by
      simp only [ClipboardChunk.assemble, hsize]
      simp [ClipboardChunk.start]
    have hstop : ClipboardChunk.assemble ⟨c.data, c.data.length⟩ (.stop c.id c.sequence) =
        (⟨c.data, c.data.length⟩, .finish) := by
      simp [ClipboardChunk.assemble, ClipboardChunk.stop]
    rw [hevents, sendClipboard, List.cons_append, ClipboardChunk.assembleAll, hstart]
    dsimp only
    rw [assembleAll_chunks, List.nil_append, flatten_chunks, ClipboardChunk.assembleAll, hstop]
    rfl

end StreamChunker

end InputLeap
