import InputLeap.LTS.Basic
import InputLeap.LTS.Queues
import Mathlib.Data.List.Infix

/-!
# Reassembly of transfers in a shared buffer

Streams of messages are delivered, in any interleaving, to one receiver that puts the pieces of
a transfer together in a buffer.  A transfer is a start message with the size of the content,
pieces, and a stop message; a transfer that is interrupted leaves out some of the last pieces.
The receiver has **one** buffer for all the streams: a start empties it and notes the size, a
piece is appended, and at a stop the transfer is reported if the buffer has the size noted.

The size alone does not say whose pieces the buffer holds.  What makes a report right is that
the buffer was filled by one stream only: since the start of the transfer that is reported no
other stream delivered a start or a piece.

## Main definitions

* `Transfer` : the content and the pieces of it that are sent.
* `State`, `lts` : the queues of the streams, the buffer, the reports, and the steps `send` (a
  stream starts to send a transfer) and `deliver` (the receiver handles a message).
* `State.sole` : the stream that alone filled the buffer since its last start.
* `Unmixed` : a report is made only for a stream that alone filled the buffer.

## Main results

* `finished_eq_content` : in every run in which all reports are unmixed, every report holds the
  whole content of a transfer that was sent completely.
-/

namespace InputLeap

namespace Reassembly

variable {σ β : Type*}

/-- A message of a transfer. -/
inductive Msg (β : Type*)
  /-- Announces the size of the content. -/
  | start (size : ℕ)
  /-- A piece of the content. -/
  | chunk (data : List β)
  /-- The last message. -/
  | stop

/-- What is sent in a transfer. -/
structure Transfer (β : Type*) where
  /-- The whole content. -/
  content : List β
  /-- The pieces that are sent. -/
  chunks : List (List β)
  /-- Pieces are sent in order, from the start of the content. -/
  chunks_prefix : chunks.flatten <+: content

namespace Transfer

/-- The whole content is sent. -/
def Complete (t : Transfer β) : Prop := t.chunks.flatten = t.content

/-- The messages of a transfer, each with the transfer it belongs to. -/
def messages (t : Transfer β) : List (Transfer β × Msg β) :=
  (t, .start t.content.length) :: (t.chunks.map fun c => (t, .chunk c)) ++ [(t, .stop)]

theorem complete_of_length {t : Transfer β} (h : t.content.length = t.chunks.flatten.length) :
    t.Complete :=
  t.chunks_prefix.eq_of_length h.symm

end Transfer

/-- A report of the receiver. -/
structure Finished (σ β : Type*) where
  /-- The stream whose stop message was handled. -/
  stream : σ
  /-- The transfer the stop message belongs to. -/
  transfer : Transfer β
  /-- The buffer at that moment. -/
  data : List β

/-- The streams and the receiver. -/
structure State (σ β : Type*) where
  /-- The messages on their way. -/
  queue : Queues σ (Transfer β × Msg β)
  /-- The buffer. -/
  data : List β
  /-- The size announced last. -/
  expected : ℕ
  /-- The stream that alone filled the buffer since its last start. -/
  sole : Option σ
  /-- The reports, newest first. -/
  finished : List (Finished σ β)

/-- A step of the streams or the receiver. -/
inductive Label (σ β : Type*)
  | send (s : σ) (t : Transfer β)
  | deliver (s : σ)

variable [DecidableEq σ]

namespace State

/-- The stream `s` sends the transfer `t` after all it has sent before. -/
def send (st : State σ β) (s : σ) (t : Transfer β) : State σ β :=
  { st with queue := st.queue.push s t.messages }

/-- The receiver handles the message `m` of the stream `s`. -/
def recv (st : State σ β) (s : σ) (t : Transfer β) : Msg β → State σ β
  | .start n => { st with data := [], expected := n, sole := some s }
  | .chunk d =>
    { st with data := st.data ++ d, sole := if st.sole = some s then some s else none }
  | .stop =>
    if st.expected = st.data.length then
      { st with finished := ⟨s, t, st.data⟩ :: st.finished }
    else st

/-- The receiver handles the next message of the stream `s`. -/
def deliver (st : State σ β) (s : σ) : Option (State σ β) :=
  (st.queue.pop s).map fun ((t, m), q) => { st.recv s t m with queue := q }

end State

/-- The transition system of the streams and the receiver. -/
def lts : LTS (State σ β) (Label σ β) where
  init st := (∀ s, st.queue s = []) ∧ st.finished = []
  step st
    | .send s t => some (st.send s t)
    | .deliver s => st.deliver s

/-- If the step makes a report, the stream alone filled the buffer. -/
def Unmixed (st : State σ β) : Label σ β → Prop
  | .send _ _ => True
  | .deliver s =>
    ∀ t q, st.queue.pop s = some ((t, .stop), q) → st.expected = st.data.length →
      st.sole = some s

/-- The messages of whole transfers. -/
def Whole (q : List (Transfer β × Msg β)) : Prop :=
  ∃ ts : List (Transfer β), q = ts.flatMap Transfer.messages

/-- The rest of the transfer `t` after its start and the pieces `p`, followed by whole
transfers. -/
def Inside (t : Transfer β) (p : List β) (q : List (Transfer β × Msg β)) : Prop :=
  ∃ (cs : List (List β)) (q' : List (Transfer β × Msg β)),
    q = cs.map (fun c => (t, .chunk c)) ++ (t, .stop) :: q' ∧
    p ++ cs.flatten = t.chunks.flatten ∧ Whole q'

/-- What the queue of a stream looks like, and what the buffer holds if the stream alone filled
it. -/
def StreamOk (st : State σ β) (s : σ) : Prop :=
  Whole (st.queue s) ∨
    ∃ t p, Inside t p (st.queue s) ∧
      (st.sole = some s → st.data = p ∧ st.expected = t.content.length)

/-- A report holds the whole content of a transfer that was sent completely. -/
def Exact (f : Finished σ β) : Prop := f.data = f.transfer.content ∧ f.transfer.Complete

/-- The invariant of unmixed runs. -/
structure Inv (st : State σ β) : Prop where
  stream : ∀ s, StreamOk st s
  exact : ∀ f ∈ st.finished, Exact f

namespace Whole

theorem nil : Whole ([] : List (Transfer β × Msg β)) := ⟨[], rfl⟩

theorem append_messages {q : List (Transfer β × Msg β)} (h : Whole q) (t : Transfer β) :
    Whole (q ++ t.messages) := by
  obtain ⟨ts, rfl⟩ := h
  exact ⟨ts ++ [t], by simp⟩

/-- The first message of whole transfers is a start, and what follows is the rest of that
transfer. -/
theorem head {q : List (Transfer β × Msg β)} {t : Transfer β} {m : Msg β}
    (h : Whole ((t, m) :: q)) : m = .start t.content.length ∧ Inside t [] q := by
  obtain ⟨ts, hts⟩ := h
  cases ts with
  | nil => simp at hts
  | cons t' ts =>
    simp only [List.flatMap_cons, Transfer.messages, List.cons_append, List.append_assoc,
      List.cons.injEq, Prod.mk.injEq] at hts
    obtain ⟨⟨rfl, rfl⟩, rfl⟩ := hts
    exact ⟨rfl, t.chunks, ts.flatMap Transfer.messages, by simp, by simp, ts, rfl⟩

end Whole

theorem Inside.append_messages {t : Transfer β} {p : List β} {q : List (Transfer β × Msg β)}
    (h : Inside t p q) (u : Transfer β) : Inside t p (q ++ u.messages) := by
  obtain ⟨cs, q', rfl, hp, hq'⟩ := h
  exact ⟨cs, q' ++ u.messages, by simp, hp, hq'.append_messages u⟩

/-- The first message inside a transfer is its next piece or, when there are none left, its
stop. -/
theorem Inside.head {t u : Transfer β} {p : List β} {m : Msg β} {q : List (Transfer β × Msg β)}
    (h : Inside t p ((u, m) :: q)) :
    u = t ∧ ((∃ c, m = .chunk c ∧ Inside t (p ++ c) q) ∨
      (m = .stop ∧ p = t.chunks.flatten ∧ Whole q)) := by
  obtain ⟨cs, q', hq, hp, hq'⟩ := h
  cases cs with
  | nil =>
    simp only [List.map_nil, List.nil_append, List.cons.injEq, Prod.mk.injEq] at hq
    obtain ⟨⟨rfl, rfl⟩, rfl⟩ := hq
    exact ⟨rfl, .inr ⟨rfl, by simpa using hp, hq'⟩⟩
  | cons c cs =>
    simp only [List.map_cons, List.cons_append, List.cons.injEq, Prod.mk.injEq] at hq
    obtain ⟨⟨rfl, rfl⟩, rfl⟩ := hq
    exact ⟨rfl, .inl ⟨c, rfl, cs, q', rfl, by simpa using hp, hq'⟩⟩

omit [DecidableEq σ] in
theorem StreamOk.of_eq {st st' : State σ β} {s : σ} (h : StreamOk st s)
    (hq : st'.queue s = st.queue s)
    (hs : st'.sole = some s → st.sole = some s ∧ st'.data = st.data ∧
      st'.expected = st.expected) : StreamOk st' s := by
  unfold StreamOk
  rw [hq]
  refine h.imp id ?_
  rintro ⟨t, p, hin, hd⟩
  refine ⟨t, p, hin, fun hsole => ?_⟩
  obtain ⟨h₁, h₂, h₃⟩ := hs hsole
  rw [h₂, h₃]
  exact hd h₁

theorem Inv.send {st : State σ β} (h : Inv st) (s : σ) (t : Transfer β) : Inv (st.send s t) := by
  refine ⟨fun s' => ?_, h.exact⟩
  by_cases hs : s' = s
  · subst hs
    have hq : (st.send s' t).queue s' = st.queue s' ++ t.messages := Queues.push_self ..
    unfold StreamOk
    rw [hq]
    refine (h.stream s').imp (fun hw => hw.append_messages t) ?_
    rintro ⟨u, p, hin, hd⟩
    exact ⟨u, p, hin.append_messages t, hd⟩
  · exact (h.stream s').of_eq (Queues.push_of_ne hs _) fun hsole => ⟨hsole, rfl, rfl⟩

/-- A delivery concerns the queue and the buffer of one stream; another stream that alone
filled the buffer still does. -/
theorem StreamOk.recv_of_ne {st : State σ β} {s s' : σ} (h : StreamOk st s') (hs : s' ≠ s)
    {t : Transfer β} {m : Msg β} {q : Queues σ (Transfer β × Msg β)}
    (hp : st.queue.pop s = some ((t, m), q)) :
    StreamOk { st.recv s t m with queue := q } s' := by
  refine h.of_eq (Queues.pop_of_ne hp hs) ?_
  cases m with
  | start n => simp [State.recv, Ne.symm hs]
  | chunk d =>
    simp only [State.recv]
    split_ifs <;> simp [Ne.symm hs]
  | stop =>
    simp only [State.recv]
    split_ifs <;> simp

theorem Inv.deliver {st st' : State σ β} {s : σ} (h : Inv st) (hG : Unmixed st (.deliver s))
    (hst : st.deliver s = some st') : Inv st' := by
  obtain ⟨⟨⟨t, m⟩, q⟩, hp, rfl⟩ := Option.map_eq_some_iff.1 hst
  have hok := h.stream s
  unfold StreamOk at hok
  rw [Queues.pop_self hp] at hok
  rcases hok with hw | ⟨u, p, hin, hd⟩
  · -- the stream starts its next transfer
    obtain ⟨rfl, hin⟩ := hw.head
    refine ⟨fun s' => ?_, h.exact⟩
    by_cases hs : s' = s
    · subst hs
      exact .inr ⟨t, [], hin, fun _ => ⟨rfl, rfl⟩⟩
    · exact (h.stream s').recv_of_ne hs hp
  · obtain ⟨rfl, ⟨c, rfl, hin'⟩ | ⟨rfl, rfl, hw⟩⟩ := hin.head
    · -- the next piece of a transfer
      refine ⟨fun s' => ?_, h.exact⟩
      by_cases hs : s' = s
      · subst hs
        refine .inr ⟨t, p ++ c, hin', fun hsole => ?_⟩
        have hsole' : st.sole = some s' := by
          by_contra hne
          simp [State.recv, hne] at hsole
        obtain ⟨hdata, hexp⟩ := hd hsole'
        exact ⟨by simp [State.recv, hdata], hexp⟩
      · exact (h.stream s').recv_of_ne hs hp
    · -- the stop of a transfer, which may be reported
      refine ⟨fun s' => ?_, ?_⟩
      · by_cases hs : s' = s
        · subst hs
          exact .inl hw
        · exact (h.stream s').recv_of_ne hs hp
      · intro f hf
        simp only [State.recv] at hf
        split_ifs at hf with hsize
        · rcases List.mem_cons.1 hf with rfl | hf
          · obtain ⟨hdata, hexp⟩ := hd (hG t q hp hsize)
            have hcomp : t.Complete :=
              Transfer.complete_of_length (by rw [← hexp, hsize, hdata])
            exact ⟨hdata.trans hcomp, hcomp⟩
          · exact h.exact f hf
        · exact h.exact f hf

/-- **Unmixed reports are right.**  In every run in which a report is made only for a stream that
alone filled the buffer, every report holds the whole content of a transfer that was sent
completely. -/
theorem finished_eq_content {st : State σ β} (h : lts.ReachableVia Unmixed st) :
    ∀ f ∈ st.finished, f.data = f.transfer.content ∧ f.transfer.Complete := by
  refine (h.invariant (I := Inv) ?_ ?_).exact
  · rintro s ⟨hq, hf⟩
    exact ⟨fun s => .inl (by rw [hq]; exact .nil), by simp [hf]⟩
  · rintro s l s' hI hG hst
    cases l with
    | send s₀ t =>
      cases hst
      exact hI.send s₀ t
    | deliver s₀ => exact hI.deliver hG hst

end Reassembly

end InputLeap
