import InputLeap.Net.Framing
import InputLeap.Net.PacketStream

/-!
# Packets and the messages made of them

One end writes packets, the bytes arrive in segments of any size, and `handle_data` of the other
end takes one message after another out of its filter.  A round of its loop may take place at any
time, so that nothing is assumed about when the event of the stream is dispatched.

## Main definitions

* `Conversation.lts` : packets are written, segments arrive, and messages are handled.
* `Conversation.Accepted` : each packet is one message for the parser that is in use then.
* `Conversation.heard` : the messages of packets, with the fields that their handlers read.
* `Conversation.Delivered` : what was handled are the first packets that were written.

## Main results

* `Conversation.delivered_of_runs` : in every run that writes accepted packets.
-/

namespace InputLeap

namespace PacketStream

/-- A read of at most `n` bytes by the end that the packets arrive at. -/
def reads (s : PacketStream) (n : ℕ) : Bytes × PacketStream :=
  ((s.filter.read n).1,
    { s with
      filter := (s.filter.read n).2
      returned := if (s.filter.read n).1 = [] then s.returned
        else s.returned ++ [(s.filter.read n).1] })

end PacketStream

/-- A stream of packets and the end that handles the messages in them. -/
structure Conversation where
  stream : PacketStream := ⟨{}, [], [], []⟩
  /-- The parser for the next message. -/
  parser : Parser := .handshake
  /-- The messages that were handled: their codes, and their fields if these could be read. -/
  handled : List (Bytes × Option (List ProtocolUtil.Value)) := []
  /-- How the connection ended. -/
  ending : Option Peer.Outcome := none

namespace Conversation

open Peer (Outcome handleMessage)
open Framing (decode fit)
open ProtocolUtil (Value)

/-- What happens on a connection. -/
inductive Event
  | write (payload : Bytes)
  /-- A segment arrives, which the socket gives out in these pieces. -/
  | arrive (pieces : List Bytes)
  /-- A round of the loop of `handle_data`. -/
  | handle

variable (peer : Peer)

/-- Takes the outcome of a round. -/
def note (c : Conversation) (r : Outcome × PacketStream) : Conversation :=
  match r.1 with
  | .idle => { c with stream := r.2 }
  | .okay code values next =>
    { c with stream := r.2, parser := next, handled := c.handled ++ [(code, values)] }
  | .closed code values =>
    { c with
      stream := r.2
      handled := c.handled ++ [(code, values)]
      ending := some (.closed code values) }
  | .error => { c with stream := r.2, ending := some .error }

/-- One step.  A connection that has ended handles nothing more. -/
def step (c : Conversation) : Event → Option Conversation
  | .write payload => (c.stream.step (.write payload)).map fun s => { c with stream := s }
  | .arrive pieces => (c.stream.step (.arrive pieces)).map fun s => { c with stream := s }
  | .handle =>
    if c.ending = none then
      some (c.note (handleMessage peer PacketStream.reads c.parser c.stream))
    else none

/-- The runs of a connection with the parser `first` for the first message. -/
def lts (first : Parser) : LTS Conversation Event where
  init c := c = { parser := first }
  step := step peer

/-- The buffer of the filter has room for a segment that arrives. -/
def Fits (c : Conversation) : Event → Prop
  | .arrive pieces => c.stream.filter.buffer.held + pieces.flatten.length < 2 ^ 32
  | _ => True

instance (c : Conversation) : ∀ e, Decidable (c.Fits e)
  | .write _ => .isTrue trivial
  | .arrive _ => inferInstanceAs (Decidable (_ < _))
  | .handle => .isTrue trivial

/-! ### Messages of packets -/

/-- Each packet is one message for the parser in use, up to one that ends the connection. -/
def Accepted : Parser → List Bytes → Prop
  | _, [] => True
  | q, p :: ps =>
    match fit peer q p with
    | some (.okay next) => Accepted next ps
    | some .disconnect => True
    | _ => False

/-- The messages of the packets, up to one that ends the connection. -/
def heard : Parser → List Bytes → List (Bytes × Option (List Value))
  | _, [] => []
  | q, p :: ps =>
    match (decode peer q p).1 with
    | .okay code values next => (code, values) :: heard next ps
    | .closed code values => [(code, values)]
    | _ => []

/-- The parser after the packets, `none` if one of them ended the connection. -/
def parserAfter : Parser → List Bytes → Option Parser
  | q, [] => some q
  | q, p :: ps =>
    match (decode peer q p).1 with
    | .okay _ _ next => parserAfter next ps
    | _ => none

/-- What was handled are the first packets that were written, in order and each once, and the
connection ended only as one of them says. -/
def Delivered (first : Parser) (c : Conversation) : Prop :=
  ∃ done todo, c.stream.written = done ++ todo ∧ c.handled = heard peer first done ∧
    (c.ending = none ∧ parserAfter peer first done = some c.parser ∨
      (∃ code values, c.ending = some (.closed code values)) ∧
        parserAfter peer first done = none) ∧
      (c.stream.wire = [] → c.stream.filter.isReady = false → todo = [])

variable {peer} {q first : Parser} {p : Bytes} {ps done todo : List Bytes} {s : PacketStream}

theorem heard_append {next : Parser} (h : parserAfter peer q done = some next)
    (ps : List Bytes) : heard peer q (done ++ ps) = heard peer q done ++ heard peer next ps := by
  induction done generalizing q with
  | nil =>
    cases h
    rfl
  | cons p done ih =>
    rw [List.cons_append, heard, heard]
    rw [parserAfter] at h
    cases hdecode : (decode peer q p).1 with
    | okay code values after =>
      rw [hdecode] at h
      simp [ih h]
    | idle => simp [hdecode] at h
    | error => simp [hdecode] at h
    | closed code values => simp [hdecode] at h

theorem parserAfter_append {next : Parser} (h : parserAfter peer q done = some next)
    (ps : List Bytes) : parserAfter peer q (done ++ ps) = parserAfter peer next ps := by
  induction done generalizing q with
  | nil =>
    cases h
    rfl
  | cons p done ih =>
    rw [List.cons_append, parserAfter]
    rw [parserAfter] at h
    cases hdecode : (decode peer q p).1 with
    | okay code values after =>
      rw [hdecode] at h
      exact ih h
    | idle => simp [hdecode] at h
    | error => simp [hdecode] at h
    | closed code values => simp [hdecode] at h

/-- A packet that is one message is decoded to it. -/
theorem decode_of_fit {verdict : Verdict} (h : fit peer q p = some verdict) :
    ∃ values, (decode peer q p) = (.ofVerdict (p.take 4) values verdict, []) :=
  (Framing.fit_eq_some h).2

/-- Of accepted packets the next one is accepted by the parser in use. -/
theorem Accepted.next {next : Parser} (h : Accepted peer q (done ++ p :: ps))
    (hafter : parserAfter peer q done = some next) :
    ∃ verdict, fit peer next p = some verdict ∧ verdict ≠ .unknown := by
  induction done generalizing q with
  | nil =>
    obtain rfl : q = next := Option.some.inj hafter
    simp only [List.nil_append, Accepted] at h
    cases hfit : fit peer q p with
    | none => simp [hfit] at h
    | some verdict =>
      refine ⟨verdict, rfl, ?_⟩
      rintro rfl
      simp [hfit] at h
  | cons p' done ih =>
    simp only [List.cons_append, Accepted] at h
    rw [parserAfter] at hafter
    cases hfit : fit peer q p' with
    | none => simp [hfit] at h
    | some verdict =>
      obtain ⟨values, hdecode⟩ := decode_of_fit hfit
      cases verdict with
      | okay after =>
        simp only [hfit] at h
        simp only [hdecode, Outcome.ofVerdict] at hafter
        exact ih h hafter
      | unknown => simp [hfit] at h
      | disconnect => simp [hdecode, Outcome.ofVerdict] at hafter

theorem Accepted.of_append (h : Accepted peer q (ps ++ todo)) : Accepted peer q ps := by
  induction ps generalizing q with
  | nil => trivial
  | cons p ps ih =>
    simp only [List.cons_append, Accepted] at h ⊢
    split at h
    · exact ih h
    · trivial
    · exact h.elim

/-! ### Reading from the stream -/

theorem flatten_read (ps : List Bytes) (n : ℕ) :
    (Packets.read ps n).1 ++ (Packets.read ps n).2.flatten = ps.flatten := by
  cases ps with
  | nil => rfl
  | cons p ps =>
    rw [Packets.read, Packets.flatten_drop, List.flatten_cons]
    dsimp only
    rw [List.drop_append_of_le_length (Nat.min_le_right n p.length), ← List.append_assoc]
    obtain hle | hle := Nat.le_total n p.length
    · rw [Nat.min_eq_left hle, List.take_append_drop]
    · rw [Nat.min_eq_right hle, List.take_of_length_le hle, List.drop_length, List.append_nil]

/-- The stream is in order, and `ps` are the packets that reads will give out.  What was written,
what is on its way, and what was read together with `ps` are as given. -/
structure Gives (written : List Bytes) (wire total : Bytes) (s : PacketStream) (ps : List Bytes) :
    Prop where
  inv : s.Inv
  held : s.filter.buffer.held < 2 ^ 32
  delivers : s.filter.delivers = ps
  written : s.written = written
  wire : s.wire = wire
  total : s.returned.flatten ++ ps.flatten = total

/-- Reading from the stream is reading from the packets that it gives out. -/
theorem sameReads_gives (written : List Bytes) (wire total : Bytes) :
    ProtocolUtil.SameReads (Gives written wire total) PacketStream.reads Packets.read := by
  rintro s ps ⟨hinv, hheld, rfl, rfl, rfl, rfl⟩ n
  have hcounts := PacketStreamFilter.readCounts_of_held (Nat.le_of_lt hheld) n
  obtain ⟨hdata, hdelivers, -⟩ := PacketStreamFilter.delivers_read hinv.synced.buffer hcounts
  refine ⟨hdata, hinv.read hcounts, (s.filter.held_read_le n).trans_lt hheld, hdelivers, rfl, rfl,
    ?_⟩
  have hreturned : (s.reads n).2.returned.flatten =
      s.returned.flatten ++ (Packets.read s.filter.delivers n).1 := by
    simp only [PacketStream.reads, hdata]
    split_ifs with hnil
    · rw [hnil, List.append_nil]
    · rw [List.flatten_append, List.flatten_singleton]
  rw [hreturned, List.append_assoc, flatten_read]

/-- Between packets, the first packet given out is the first one that was not read. -/
theorem head_of_delivers (h : s.Inv) (hwritten : s.written = done ++ todo)
    (hreturned : s.returned.flatten = done.flatten) (hgives : s.filter.delivers = p :: ps) :
    ∃ later, todo = p :: later := by
  have hready : s.filter.isReady = true := by
    by_contra hnot
    rw [PacketStreamFilter.delivers_of_not_ready (Bool.eq_false_iff.2 hnot)] at hgives
    cases hgives
  obtain ⟨hsize, hle⟩ := (PacketStreamFilter.isReady_iff h.synced.buffer).1 hready
  obtain ⟨gs, g, r, later, hr, hrest, hpieces, hall⟩ := h.synced.progress.of_ne_zero hsize
  -- the first packet given out is what is left of the current one
  have hp : r = p := by
    rw [PacketStreamFilter.delivers, if_pos hready] at hgives
    rw [← (List.cons.inj hgives).1, hr]
    have htake := congrArg (List.take r.length) hrest
    rw [List.take_append_of_le_length (hr ▸ hle), List.take_left] at htake
    exact htake.symm
  have hne : r ≠ [] := fun hnil => hsize (by rw [hr, hnil]; rfl)
  rw [hpieces, List.flatten_append, List.flatten_flatten] at hreturned
  have hboth : gs.map List.flatten ++ (g.flatten ++ r) :: later = done ++ todo :=
    hall.symm.trans hwritten
  -- compare the packets that are finished with those that were read
  obtain ⟨more, hdone, htodo⟩ | ⟨more, hdone, htodo⟩ := List.append_eq_append_iff.1 hboth
  · cases more with
    | nil =>
      rw [hdone, List.append_nil, List.append_right_eq_self] at hreturned
      rw [hreturned, List.nil_append, List.nil_append, hp] at htodo
      exact ⟨later, htodo.symm⟩
    | cons p' more =>
      obtain ⟨rfl, -⟩ := List.cons.inj htodo
      refine absurd hreturned fun heq => hne ?_
      rw [hdone, List.flatten_append, List.append_cancel_left_eq, List.flatten_cons,
        List.append_assoc] at heq
      have hboth : r = [] ∧ ∀ l ∈ more, l = [] := by simpa using heq
      exact hboth.1
  · have hfilled : ∀ p' ∈ more, p' ≠ [] := fun p' hmem =>
      (h.sendable p' (hwritten ▸ List.mem_append_right _ (htodo ▸
        List.mem_append_left _ hmem))).1
    cases more with
    | nil =>
      rw [hdone, List.append_nil, List.append_right_eq_self] at hreturned
      rw [hreturned, List.nil_append, List.nil_append, hp] at htodo
      exact ⟨later, htodo⟩
    | cons p' more =>
      refine absurd hreturned fun heq => hfilled p' List.mem_cons_self ?_
      rw [hdone, List.flatten_append, List.append_assoc, List.append_right_eq_self,
        List.flatten_cons] at heq
      simp_all

/-! ### Runs -/

/-- The pieces that arrive are all that the buffer holds more. -/
theorem held_arrive_le (f : PacketStreamFilter) (pieces : List Bytes) (hstream : f.stream = []) :
    (f.arrive pieces).buffer.held ≤ f.buffer.held + pieces.flatten.length := by
  have hdrain : ∀ (reads : List Bytes) (f : PacketStreamFilter),
      (PacketStreamFilter.drain reads f).buffer.held ≤
        f.buffer.held + reads.flatten.length := by
    intro reads
    induction reads with
    | nil => exact fun f => Nat.le_refl _
    | cons chunk rest ih =>
      intro f
      rw [List.flatten_cons, List.length_append]
      have hwrite := StreamBuffer.held_write f.buffer chunk
      have hle := PacketStreamFilter.held_readPacketSize_le
        { f with buffer := f.buffer.write chunk }
      simp only [PacketStreamFilter.drain]
      split_ifs
      · have hrest := ih ({ f with buffer := f.buffer.write chunk } :
          PacketStreamFilter).readPacketSize.1
        dsimp only at hle
        omega
      · dsimp only at hle ⊢
        omega
  have hle := hdrain pieces { f with stream := pieces }
  simp only [PacketStreamFilter.arrive, PacketStreamFilter.filterEvent,
    PacketStreamFilter.readMore, hstream, List.nil_append]
  split_ifs
  · exact hle
  · exact hle

variable {c c' : Conversation}

/-- The invariant: the stream is between packets, and the messages of those that were read are
handled. -/
structure Inv (peer : Peer) (first : Parser) (c : Conversation) : Prop where
  stream : c.stream.Inv
  held : c.stream.filter.buffer.held < 2 ^ 32
  split : ∃ done todo, c.stream.written = done ++ todo ∧
    c.stream.returned.flatten = done.flatten ∧ c.handled = heard peer first done ∧
      (c.ending = none ∧ parserAfter peer first done = some c.parser ∨
        (∃ code values, c.ending = some (.closed code values)) ∧
          parserAfter peer first done = none)

theorem Inv.write (h : Inv peer first c) {payload : Bytes}
    (hst : c.step peer (.write payload) = some c') : Inv peer first c' := by
  obtain ⟨s, hs, rfl⟩ := Option.map_eq_some_iff.1 hst
  simp only [PacketStream.step] at hs
  split_ifs at hs with hp
  cases hs
  obtain ⟨done, todo, hwritten, hreturned, hhandled, hparser⟩ := h.split
  refine ⟨h.stream.write hp, h.held, done, todo ++ [payload], ?_, hreturned, hhandled, hparser⟩
  rw [← List.append_assoc, ← hwritten]

theorem Inv.arrive (h : Inv peer first c) {pieces : List Bytes} (hfits : c.Fits (.arrive pieces))
    (hst : c.step peer (.arrive pieces) = some c') : Inv peer first c' := by
  obtain ⟨s, hs, rfl⟩ := Option.map_eq_some_iff.1 hst
  simp only [PacketStream.step] at hs
  split_ifs at hs with hpieces
  cases hs
  have hstream := h.stream.stream
  have hsize : c.stream.filter.buffer.contents.length ≤ c.stream.filter.buffer.held := by
    rw [StreamBuffer.contents, StreamBuffer.held, List.length_drop]
    exact Nat.sub_le _ _
  have hcounts : c.stream.filter.ArriveCounts pieces := by
    refine PacketStreamFilter.drainCounts_of_held ?_
    rw [hstream, List.nil_append]
    exact Nat.le_of_lt hfits
  refine ⟨(h.stream.arrive hpieces.2 ?_ hcounts).1, ?_, h.split⟩
  · exact Nat.lt_of_le_of_lt (Nat.add_le_add_right hsize _) hfits
  · exact Nat.lt_of_le_of_lt (held_arrive_le _ _ hstream) hfits

/-- A round of the loop handles the next packet, if it has arrived whole. -/
theorem Inv.handle (h : Inv peer first c) (haccepted : Accepted peer first c.stream.written)
    (hst : c.step peer .handle = some c') : Inv peer first c' := by
  obtain ⟨done, todo, hwritten, hreturned, hhandled, ⟨-, hparser⟩ | ⟨⟨code, values, hend⟩, -⟩⟩ :=
    h.split
  · simp only [step] at hst
    split_ifs at hst with hopen
    obtain rfl := Option.some.inj hst
    have hfilled := PacketStreamFilter.filled_delivers h.stream.synced.buffer
    obtain ⟨houtcome, hgives⟩ := Peer.sim_handleMessage peer
      (sameReads_gives c.stream.written c.stream.wire
        (c.stream.returned.flatten ++ c.stream.filter.delivers.flatten)) c.parser
      ⟨h.stream, h.held, rfl, rfl, rfl, rfl⟩
    cases hdelivers : c.stream.filter.delivers with
    | nil =>
      -- no packet is complete
      rw [hdelivers] at houtcome hgives
      have hidle : handleMessage peer Packets.read c.parser [] = (.idle, []) := rfl
      rw [hidle] at houtcome hgives
      have htotal := hgives.total
      simp only [List.flatten_nil, List.append_nil] at htotal
      rw [note, houtcome]
      exact ⟨hgives.inv, hgives.held, done, todo, hgives.written.trans hwritten,
        htotal.trans hreturned, hhandled, .inl ⟨hopen, hparser⟩⟩
    | cons p ps =>
      rw [hdelivers] at houtcome hgives hfilled
      obtain ⟨later, rfl⟩ := head_of_delivers h.stream hwritten hreturned hdelivers
      rw [hwritten] at haccepted
      obtain ⟨verdict, hfit, hverdict⟩ := haccepted.next hparser
      obtain ⟨hwhole, values, hdecode⟩ := Framing.fit_eq_some hfit
      have hmessage : handleMessage peer Packets.read c.parser (p :: ps) =
          (.ofVerdict (p.take 4) values verdict, ps) := by
        rw [Framing.handleMessage_of_whole hfilled fun hlacking => absurd hlacking hwhole,
          hdecode, Framing.unread, if_pos rfl]
      rw [hmessage] at houtcome hgives
      -- exactly the packet was read
      have hread : (handleMessage peer PacketStream.reads c.parser
          c.stream).2.returned.flatten = (done ++ [p]).flatten := by
        have htotal := hgives.total
        rw [List.flatten_cons, ← List.append_assoc, List.append_left_inj, hreturned] at htotal
        rw [htotal, List.flatten_append, List.flatten_singleton]
      have hsplit : c.stream.written = (done ++ [p]) ++ later := by
        rw [hwritten, List.append_assoc, List.singleton_append]
      rw [note, houtcome]
      cases verdict with
      | okay next =>
        refine ⟨hgives.inv, hgives.held, done ++ [p], later, hgives.written.trans hsplit, hread,
          ?_, .inl ⟨hopen, ?_⟩⟩
        · simp only [Outcome.ofVerdict]
          rw [heard_append hparser, hhandled]
          simp [heard, hdecode, Outcome.ofVerdict]
        · simp only [Outcome.ofVerdict]
          rw [parserAfter_append hparser]
          simp [parserAfter, hdecode, Outcome.ofVerdict]
      | unknown => exact absurd rfl hverdict
      | disconnect =>
        refine ⟨hgives.inv, hgives.held, done ++ [p], later, hgives.written.trans hsplit, hread,
          ?_, .inr ⟨⟨_, _, rfl⟩, ?_⟩⟩
        · simp only [Outcome.ofVerdict]
          rw [heard_append hparser, hhandled]
          simp [heard, hdecode, Outcome.ofVerdict]
        · rw [parserAfter_append hparser]
          simp [parserAfter, hdecode, Outcome.ofVerdict]
  · simp only [step, hend] at hst
    cases hst

/-- Reading does not write. -/
theorem written_handle (hst : c.step peer .handle = some c') :
    c'.stream.written = c.stream.written := by
  simp only [step] at hst
  split_ifs at hst
  cases hst
  have hsame : ProtocolUtil.SameReads (fun s t : PacketStream => s = t ∧
      s.written = c.stream.written) PacketStream.reads PacketStream.reads := by
    rintro s _ ⟨rfl, hs⟩ n
    exact ⟨rfl, rfl, hs⟩
  obtain ⟨-, -, hwritten⟩ := Peer.sim_handleMessage peer hsame c.parser
    (And.intro (Eq.refl c.stream) (Eq.refl _))
  rw [note]
  split <;> exact hwritten

/-- A round handles one message, or none and the connection stays as it is unless it fails. -/
theorem handled_handle (hst : c.step peer .handle = some c') :
    c.ending = none ∧ ((c'.handled = c.handled ∧ (c'.ending = none ∨ c'.ending = some .error)) ∨
      ∃ m, c'.handled = c.handled ++ [m]) := by
  simp only [step] at hst
  split_ifs at hst with hopen
  cases hst
  refine ⟨hopen, ?_⟩
  rw [note]
  split
  · exact .inl ⟨rfl, .inl hopen⟩
  · exact .inr ⟨_, rfl⟩
  · exact .inr ⟨_, rfl⟩
  · exact .inl ⟨rfl, .inr rfl⟩

theorem written_step {e : Event} (hst : c.step peer e = some c') :
    c.stream.written <+: c'.stream.written := by
  cases e with
  | write payload =>
    obtain ⟨s, hs, rfl⟩ := Option.map_eq_some_iff.1 hst
    simp only [PacketStream.step] at hs
    split_ifs at hs
    cases hs
    exact List.prefix_append _ _
  | arrive pieces =>
    obtain ⟨s, hs, rfl⟩ := Option.map_eq_some_iff.1 hst
    simp only [PacketStream.step] at hs
    split_ifs at hs
    cases hs
    exact List.prefix_refl _
  | handle => exact written_handle hst ▸ List.prefix_refl _

theorem inv_of_runs (hs : (lts peer first).ReachableVia Fits c)
    (haccepted : Accepted peer first c.stream.written) : Inv peer first c := by
  revert haccepted
  refine hs.invariant (I := fun c => Accepted peer first c.stream.written → Inv peer first c)
    ?_ ?_
  · rintro _ rfl -
    exact ⟨.init, Nat.pow_pos (by decide), [], [], rfl, rfl, rfl, .inl ⟨rfl, rfl⟩⟩
  · intro c e c' ih hfits hst haccepted
    obtain ⟨later, hlater⟩ := written_step hst
    have h : Inv peer first c := ih (Accepted.of_append (hlater ▸ haccepted))
    cases e with
    | write payload => exact h.write hst
    | arrive pieces => exact h.arrive hfits hst
    | handle => exact h.handle (Accepted.of_append (hlater ▸ haccepted)) hst

/-- **What is handled are the packets that were written**, each as one message, in order and
once, and all of them when nothing is on its way any more. -/
theorem delivered_of_runs (hs : (lts peer first).ReachableVia Fits c)
    (haccepted : Accepted peer first c.stream.written) : Delivered peer first c := by
  have h := inv_of_runs hs haccepted
  obtain ⟨done, todo, hwritten, hreturned, hhandled, hparser⟩ := h.split
  refine ⟨done, todo, hwritten, hhandled, hparser, fun hwire hready => ?_⟩
  have hall := h.stream.drained hwire hready
  rw [hreturned, hwritten, List.flatten_append, List.self_eq_append_right] at hall
  refine List.eq_nil_iff_forall_not_mem.2 fun p hmem => ?_
  exact (h.stream.sendable p (hwritten ▸ List.mem_append_right _ hmem)).1
    (List.flatten_eq_nil_iff.1 hall p hmem)

end Conversation

end InputLeap
