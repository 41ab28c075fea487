import InputLeap.Clipboard.RoundTrip
import InputLeap.Net.ClientCalls
import InputLeap.Transfer.ClipboardSending

/-!
# Clipboards from one end to the other

A clipboard is marshalled, cut into messages, written to the stream between other messages, cut
by the network, framed, read, put together and unmarshalled.  With one client the other end has
the clipboards that were sent, in this order.

## Main definitions

* `CarriedClipboard` : a clipboard that is sent, and its messages.
* `ClipboardChunk.finishes` : the clipboards that are complete behind some messages.
* `Dialect.Carries` : the receiver has the first of the clipboards that were sent, and has those
  whose messages were handled.

## Main results

* `Dialect.Speaks.carries` : calls that are delivered carry clipboards.
* `carries_both` : those of a client and those of the server do.
-/

namespace InputLeap

/-- A clipboard that is sent. -/
structure CarriedClipboard where
  id : ClipboardID
  sequence : UInt32
  clipboard : Clipboard
  /-- Sizes of formats are 32-bit numbers. -/
  format_lt : ∀ f d, clipboard.data f = some d → d.length < 2 ^ 32
  /-- Sizes in memory are 64-bit numbers. -/
  size_lt : clipboard.marshall.length < 2 ^ 64

namespace CarriedClipboard

/-- The call of `StreamChunker::sendClipboard`. -/
def sent (c : CarriedClipboard) : SentClipboard where
  id := c.id
  sequence := c.sequence.toNat
  data := c.clipboard.marshall
  size_lt := c.size_lt

/-- Its messages. -/
def messages (c : CarriedClipboard) : List ClipboardChunk := StreamChunker.sendClipboard c.sent

end CarriedClipboard

namespace ClipboardChunk

/-- A clipboard that is complete: the numbers in its last message, and its bytes. -/
structure Stored where
  id : ℕ
  sequence : ℕ
  data : Bytes
  deriving DecidableEq

/-- The clipboards that are complete behind the messages. -/
def finishes (cache : Cache) : List ClipboardChunk → List Stored
  | [] => []
  | msg :: msgs =>
    let (cache, r) := assemble cache msg
    match r with
    | .finish => ⟨msg.id, msg.sequence, cache.dataCached⟩ :: finishes cache msgs
    | _ => finishes cache msgs

variable {cache : Cache} {c : SentClipboard}

theorem finishes_append (msgs later : List ClipboardChunk) :
    finishes cache (msgs ++ later) =
      finishes cache msgs ++ finishes (assembleAll cache msgs).1 later := by
  induction msgs generalizing cache with
  | nil => rfl
  | cons msg msgs ih =>
    simp only [List.cons_append, finishes, assembleAll]
    cases (assemble cache msg).2 with
    | finish => exact congrArg _ ih
    | _ => exact ih

theorem finishes_chunks (chunks : List Bytes) (later : List ClipboardChunk) :
    finishes cache (chunks.map (.chunk c.id c.sequence) ++ later) =
      finishes ⟨cache.dataCached ++ chunks.flatten, cache.expectedSize⟩ later := by
  induction chunks generalizing cache with
  | nil =>
    rw [List.flatten_nil, List.append_nil]
    rfl
  | cons chunk chunks ih =>
    have hchunk : assemble cache (.chunk c.id c.sequence chunk) =
        (⟨cache.dataCached ++ chunk, cache.expectedSize⟩, .notFinish) := by
      simp [assemble, ClipboardChunk.chunk]
    rw [List.map_cons, List.cons_append, finishes, hchunk]
    dsimp only
    rw [ih, List.flatten_cons, List.append_assoc]

/-- The messages of a clipboard complete it, whatever was in the buffer. -/
theorem finishes_sendClipboard (c : SentClipboard) :
    finishes cache (StreamChunker.sendClipboard c) = [⟨c.id.toNat, c.sequence, c.data⟩] := by
  have hstart : assemble cache (.start c.id c.sequence c.data.length) =
      (⟨[], c.data.length⟩, .start) := by
    simp [assemble, ClipboardChunk.start, stringToSizeType_sizeToString c.size_lt]
  have hstop : assemble ⟨c.data, c.data.length⟩ (.stop c.id c.sequence) =
      (⟨c.data, c.data.length⟩, .finish) := by
    simp [assemble, ClipboardChunk.stop]
  rw [StreamChunker.sendClipboard, List.cons_append, finishes, hstart]
  dsimp only
  rw [finishes_chunks, List.nil_append, StreamChunker.flatten_chunks, finishes, hstop]
  rfl

theorem finishes_messages (clips : List CarriedClipboard) :
    finishes cache (clips.flatMap (·.messages)) =
      clips.map fun c => ⟨c.id.toNat, c.sequence.toNat, c.clipboard.marshall⟩ := by
  induction clips generalizing cache with
  | nil => rfl
  | cons c clips ih =>
    rw [List.flatMap_cons, finishes_append, ih, CarriedClipboard.messages, finishes_sendClipboard]
    rfl

/-- Later messages do not undo what is complete. -/
theorem finishes_mono {msgs all : List ClipboardChunk} (h : msgs <+: all) :
    finishes cache msgs <+: finishes cache all := by
  obtain ⟨later, rfl⟩ := h
  rw [finishes_append]
  exact List.prefix_append _ _

end ClipboardChunk

/-- The clipboard that the receiver makes, with its numbers. -/
abbrev ReceivedClipboard := ℕ × ℕ × Option Clipboard

namespace Dialect

open ClipboardChunk (finishes)

variable {C : Type} (d : Dialect C) (chunk? : C → Option ClipboardChunk)

/-- The messages of clipboards that were handled. -/
def chunks (s : Link C) : List ClipboardChunk := (d.received s).filterMap fun c => c.bind chunk?

/-- The clipboards that the receiver has made, whose buffer had anything in it at first. -/
def clipboards (isSigned : Bool) (cache : ClipboardChunk.Cache) (s : Link C) :
    List ReceivedClipboard :=
  (finishes cache (d.chunks chunk? s)).map fun f =>
    (f.id, f.sequence, Clipboard.unmarshallAt isSigned f.data 0)

/-- Clipboards are carried: of those that are sent, the receiver has the first ones as they were,
and those of which all messages were handled. -/
def Carries (isSigned : Bool) : Prop :=
  ∀ (s : Link C) (cache : ClipboardChunk.Cache) (clips : List CarriedClipboard),
    d.lts.ReachableVia d.Admits s →
    s.calls.filterMap chunk? <+: clips.flatMap (·.messages) →
    ∃ k ≤ clips.length,
      d.clipboards chunk? isSigned cache s = (clips.take k).map
        (fun c => (c.id.toNat, c.sequence.toNat, some ⟨c.clipboard.data, 0⟩)) ∧
      (∀ j ≤ clips.length, (clips.take j).flatMap (·.messages) <+: d.chunks chunk? s → j ≤ k) ∧
      (s.conversation.ending = none → s.conversation.stream.wire = [] →
        s.conversation.stream.filter.isReady = false →
          d.chunks chunk? s = s.calls.filterMap chunk?)

variable {d chunk?}

/-- The marshalled form is read back. -/
theorem unmarshallAt_carried (c : CarriedClipboard) (isSigned : Bool) :
    Clipboard.unmarshallAt isSigned c.clipboard.marshall 0 = some ⟨c.clipboard.data, 0⟩ := by
  have hlength : c.clipboard.entries.length ≤ Format.all.length := List.length_filterMap_le _ _
  have hall : Format.all.length = 8 := rfl
  have hentries (e : Clipboard.Entry) (he : e ∈ c.clipboard.entries) :
      e.number < 2 ^ 31 ∧ e.size < 2 ^ 32 ∧ e.data.length = e.size := by
    obtain ⟨hnumber, hsize, hdata⟩ := Clipboard.mem_entries c.format_lt he
    exact ⟨hnumber.trans (by decide), hsize, hdata⟩
  rw [Clipboard.marshall_eq, Clipboard.unmarshallAt_marshallEntries hentries (by omega),
    Clipboard.foldl_addEntry_entries]

/-- **Calls that are delivered carry clipboards.** -/
theorem Speaks.carries (hd : d.Speaks) (hwire : ∀ c, chunk? (d.onWire c) = chunk? c)
    (isSigned : Bool) : d.Carries chunk? isSigned := by
  intro s cache clips hs hcalls
  obtain ⟨done, todo, hsplit, hreceived, -, hquiet⟩ := hd.delivered hs
  have hchunks : d.chunks chunk? s = done.filterMap chunk? := by
    rw [chunks, hreceived, List.filterMap_map]
    exact congrArg (List.filterMap · done) (funext fun c => hwire c)
  -- The chunks that were handled are the first ones that were sent,
  have hprefix : d.chunks chunk? s <+: clips.flatMap (·.messages) := by
    refine List.IsPrefix.trans ?_ hcalls
    rw [hchunks, hsplit, List.filterMap_append]
    exact List.prefix_append _ _
  -- and so are the clipboards that they finish.
  have hfinishes : finishes cache (d.chunks chunk? s) <+:
      finishes cache (clips.flatMap (·.messages)) := ClipboardChunk.finishes_mono hprefix
  rw [ClipboardChunk.finishes_messages] at hfinishes
  have htake := List.prefix_iff_eq_take.1 hfinishes
  rw [← List.map_take] at htake
  refine ⟨(finishes cache (d.chunks chunk? s)).length, ?_, ?_, fun j hj hhandled => ?_, ?_⟩
  · have hle := hfinishes.length_le
    rwa [List.length_map] at hle
  · rw [clipboards]
    conv_lhs => rw [htake]
    rw [List.map_map]
    refine List.map_congr_left fun c _ => ?_
    show (_, _, Clipboard.unmarshallAt isSigned c.clipboard.marshall 0) = _
    rw [unmarshallAt_carried]
  · have hle : finishes cache ((clips.take j).flatMap (·.messages)) <+:
        finishes cache (d.chunks chunk? s) := ClipboardChunk.finishes_mono hhandled
    have hmono := hle.length_le
    rw [ClipboardChunk.finishes_messages, List.length_map, List.length_take] at hmono
    omega
  · intro hopen hnowire hready
    rw [hchunks, hsplit, hquiet hopen hnowire hready, List.append_nil]

end Dialect

/-- The message of a clipboard that a client sends. -/
def ServerProxy.chunk? : ServerProxy.Call → Option ClipboardChunk
  | .clipboardChunk id sequence mark data => some ⟨id.toNat, sequence.toNat, mark.toNat, data⟩
  | _ => none

/-- The message of a clipboard that the server sends. -/
def ClientConnection.chunk? : ClientConnection.Call → Option ClipboardChunk
  | .clipboardChunk id sequence mark data => some ⟨id.toNat, sequence.toNat, mark.toNat, data⟩
  | _ => none

theorem ServerProxy.chunk?_onWire (c : ServerProxy.Call) :
    ServerProxy.chunk? (ServerProxy.dialect.onWire c) = ServerProxy.chunk? c := by
  cases c with
  | sendInfo x y w h mx my =>
    show ServerProxy.chunk? ((ServerProxy.infoMessage x y w h mx my).stored.elim _ _) = none
    cases (ServerProxy.infoMessage x y w h mx my).stored <;> rfl
  | _ => rfl

theorem ClientConnection.chunk?_onWire (c : ClientConnection.Call) :
    ClientConnection.chunk? (ClientConnection.dialect.onWire c) = ClientConnection.chunk? c := by
  cases c <;> rfl

/-- **Clipboards travel whole in both directions** between the server and its only client. -/
theorem carries_both (isSigned : Bool) :
    ServerProxy.dialect.Carries ServerProxy.chunk? isSigned ∧
      ClientConnection.dialect.Carries ClientConnection.chunk? isSigned :=
  ⟨ServerProxy.table.speaks.carries ServerProxy.chunk?_onWire isSigned,
    ClientConnection.table.speaks.carries ClientConnection.chunk?_onWire isSigned⟩

/-- The word "hi". -/
def word : Clipboard := Clipboard.add (.clear 7) .text [104, 105]

theorem format_lt_word (f : Format) (d : Bytes) (h : word.data f = some d) :
    d.length < 2 ^ 32 := by
  simp only [word, Clipboard.add, Clipboard.clear] at h
  split_ifs at h
  obtain rfl := Option.some.inj h
  decide

theorem size_lt_word : word.marshall.length < 2 ^ 64 := by decide +kernel

def hi : CarriedClipboard where
  id := .clipboard
  sequence := 3
  clipboard := word
  format_lt := format_lt_word
  size_lt := size_lt_word

/-- A client reports its shape and sends the word; between its messages is another one, and the
network cuts them. -/
def hiEvents : List (Dialect.Event ServerProxy.Call) :=
  [.call (.sendInfo 0 0 1920 1080 5 5), .call (.clipboardChunk 0 3 1 [49, 52]), .call .keepAlive,
    .call (.clipboardChunk 0 3 2 [0, 0, 0, 1, 0, 0, 0, 0, 0, 0, 0, 2, 104, 105]),
    .call (.clipboardChunk 0 3 3 []),
    .arrive [[0, 0, 0, 18, 68, 73, 78, 70, 0, 0, 0, 0, 7, 128, 4, 56, 0, 0, 0, 5, 0, 5, 0, 0, 0, 16,
      68, 67, 76, 80, 0, 0, 0, 0, 3, 1, 0, 0, 0, 2, 49], [52, 0, 0, 0, 4, 67, 65, 76, 86, 0, 0]],
    .handle, .handle, .handle,
    .arrive [[0, 28, 68, 67, 76, 80, 0, 0, 0, 0, 3, 2, 0, 0, 0, 14, 0, 0, 0, 1, 0, 0, 0, 0, 0, 0, 0,
      2, 104, 105, 0, 0, 0, 14, 68, 67, 76, 80, 0, 0, 0, 0, 3, 3, 0, 0, 0, 0]],
    .handle, .handle]

/-- The server asks for the shape, sends its options and the word, with a keep-alive in between. -/
def hiEventsDown : List (Dialect.Event ClientConnection.Call) :=
  [.call .queryInfo, .call .resetOptions, .call (.setOptions []),
    .call (.clipboardChunk 0 3 1 [49, 52]), .call .keepAlive,
    .call (.clipboardChunk 0 3 2 [0, 0, 0, 1, 0, 0, 0, 0, 0, 0, 0, 2, 104, 105]),
    .call (.clipboardChunk 0 3 3 []),
    .arrive [[0, 0, 0, 4, 81, 73, 78, 70, 0, 0, 0, 4, 67, 82, 79, 80, 0, 0, 0, 8, 68, 83, 79, 80, 0,
      0, 0, 0, 0, 0, 0, 16, 68, 67, 76, 80, 0], [0, 0, 0, 3, 1, 0, 0, 0, 2, 49, 52, 0, 0, 0, 4]],
    .handle, .handle, .handle, .handle,
    .arrive [[67, 65, 76, 86, 0, 0, 0, 28, 68, 67, 76, 80, 0, 0, 0, 0, 3, 2, 0, 0, 0, 14, 0, 0, 0,
      1, 0, 0, 0, 0, 0, 0, 0, 2, 104, 105, 0, 0, 0, 14, 68, 67, 76, 80, 0, 0, 0, 0, 3, 3, 0, 0, 0,
      0]],
    .handle, .handle, .handle]

/-- When all messages of the word were handled, the receiver has it. -/
theorem Dialect.exists_clipboards_hi {C : Type} {d : Dialect C} {chunk? : C → Option ClipboardChunk}
    {events : List (Dialect.Event C)} {calls : List C} (h : d.Carries chunk? true)
    (hadm : d.lts.Admits d.Admits ⟨{ parser := .handshake }, []⟩ events)
    (hrun : (d.lts.exec ⟨{ parser := .handshake }, []⟩ events).map
      (fun s => (s.calls, s.conversation.ending, s.conversation.stream.wire,
        s.conversation.stream.filter.isReady)) = some (calls, none, [], false))
    (hcalls : calls.filterMap chunk? = [hi].flatMap (·.messages)) :
    ∃ s, d.lts.exec ⟨{ parser := .handshake }, []⟩ events = some s ∧
      d.clipboards chunk? true ⟨[1], 5⟩ s = [(0, 3, some ⟨hi.clipboard.data, 0⟩)] := by
  obtain ⟨s, hs, hfields⟩ := Option.map_eq_some_iff.1 hrun
  simp only [Prod.mk.injEq] at hfields
  obtain ⟨rfl, hopen, hwire, hready⟩ := hfields
  obtain ⟨k, hk, hclips, hmost, hquiet⟩ := h s ⟨[1], 5⟩ [hi] (.of_exec (.init rfl) hadm hs)
    (hcalls ▸ List.prefix_rfl)
  have hall := hquiet hopen hwire hready
  obtain rfl : k = 1 := Nat.le_antisymm hk
    (hmost 1 (by decide) (hall.trans hcalls ▸ List.prefix_rfl))
  exact ⟨s, hs, hclips⟩

theorem carries_both_hi :
    (∃ s, ServerProxy.dialect.lts.exec ⟨{ parser := .handshake }, []⟩ hiEvents = some s ∧
      ServerProxy.dialect.clipboards ServerProxy.chunk? true ⟨[1], 5⟩ s =
        [(0, 3, some ⟨hi.clipboard.data, 0⟩)]) ∧
    ∃ s, ClientConnection.dialect.lts.exec ⟨{ parser := .handshake }, []⟩ hiEventsDown = some s ∧
      ClientConnection.dialect.clipboards ClientConnection.chunk? true ⟨[1], 5⟩ s =
        [(0, 3, some ⟨hi.clipboard.data, 0⟩)] := by
  constructor
  · have hrun : (ServerProxy.dialect.lts.exec ⟨{ parser := .handshake }, []⟩ hiEvents).map
        (fun s => (s.calls, s.conversation.ending, s.conversation.stream.wire,
          s.conversation.stream.filter.isReady)) =
        some ([.sendInfo 0 0 1920 1080 5 5, .clipboardChunk 0 3 1 [49, 52], .keepAlive,
          .clipboardChunk 0 3 2 [0, 0, 0, 1, 0, 0, 0, 0, 0, 0, 0, 2, 104, 105],
          .clipboardChunk 0 3 3 []], none, [], false) := by
      decide +kernel
    exact Dialect.exists_clipboards_hi (carries_both true).1 (by decide +kernel) hrun rfl
  · have hrun : (ClientConnection.dialect.lts.exec ⟨{ parser := .handshake }, []⟩ hiEventsDown).map
        (fun s => (s.calls, s.conversation.ending, s.conversation.stream.wire,
          s.conversation.stream.filter.isReady)) =
        some ([.queryInfo, .resetOptions, .setOptions [], .clipboardChunk 0 3 1 [49, 52],
          .keepAlive, .clipboardChunk 0 3 2 [0, 0, 0, 1, 0, 0, 0, 0, 0, 0, 0, 2, 104, 105],
          .clipboardChunk 0 3 3 []], none, [], false) := by
      decide +kernel
    exact Dialect.exists_clipboards_hi (carries_both true).2 (by decide +kernel) hrun rfl

end InputLeap
