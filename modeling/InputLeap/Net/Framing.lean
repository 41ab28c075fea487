import InputLeap.Net.InputShutdown
import InputLeap.Net.Messages
import InputLeap.Net.Packets

/-!
# Messages and packets

The filter knows where a packet ends, and the handlers of the messages know which fields they
read.  Nothing compares the two: a handler that wants more than its packet has reads on in the
next one, and what it leaves of a packet is taken for the next message.

## Main definitions

* `Framing.Isolated` : each message is read from its own packet, as if nothing else had arrived.
* `Framing.Framed` : each packet is one message, or holds something that ends the connection.

## Main results

* `Framing.isSome_handleData` : the loop of `handle_data` ends.
* `Framing.isolated_iff` : the messages are isolated exactly for framed packets.
* `Framing.not_isolated` : they are not for others.
-/

namespace InputLeap

namespace Framing

open Peer (Outcome handleMessage handleData parse)
open ProtocolUtil (Value readf vreadf)
open StreamBuffer (Ok)

variable (peer : Peer)

/-! ### Packets of one message -/

/-- The fields of the message do not all fit in the bytes. -/
def Short (h : Handler) (bytes : Bytes) : Prop :=
  (vreadf Reading.take h.fields bytes).1 = .error .endOfStream

/-- The verdict of the handler, if the packet is its code and exactly its fields. -/
def fit (q : Parser) (p : Bytes) : Option Verdict :=
  if p.length < 4 then none
  else
    match peer.lookup q (p.take 4) with
    | none => none
    | some h =>
      match vreadf Reading.take h.fields (p.drop 4) with
      | (.ok values, []) => some (h.verdict (some values))
      | _ => none

/-- The bytes hold something that ends the connection, after whole messages at most.  Fields that
are missing do if no packet is behind; `last` says so. -/
inductive Refused (last : Prop) : Parser → Bytes → Prop
  /-- There is not even a code. -/
  | code {q : Parser} {p : Bytes} (hne : p ≠ []) (hlength : p.length < 4) : Refused last q p
  /-- No handler has the code. -/
  | unknown {q : Parser} {p : Bytes} (hlength : 4 ≤ p.length)
    (hlookup : peer.lookup q (p.take 4) = none) : Refused last q p
  /-- A string or a list is over its limit. -/
  | limit {q : Parser} {p : Bytes} {h : Handler} {e : ReadError} (hlength : 4 ≤ p.length)
    (hlookup : peer.lookup q (p.take 4) = some h)
    (hread : (readf Reading.take h.fields (p.drop 4)).1 = .error e) : Refused last q p
  /-- The handler does not accept the fields, or that there are none. -/
  | invalid {q : Parser} {p rest : Bytes} {h : Handler} {values : Option (List Value)}
    (hlength : 4 ≤ p.length) (hlookup : peer.lookup q (p.take 4) = some h)
    (hread : readf Reading.take h.fields (p.drop 4) = (.ok values, rest))
    (hlast : Short h (p.drop 4) → last) (hverdict : h.verdict values = .unknown) :
    Refused last q p
  /-- What is left after the message does. -/
  | next {q next : Parser} {p rest : Bytes} {h : Handler} {values : Option (List Value)}
    (hlength : 4 ≤ p.length) (hlookup : peer.lookup q (p.take 4) = some h)
    (hread : readf Reading.take h.fields (p.drop 4) = (.ok values, rest))
    (hlast : Short h (p.drop 4) → last) (hverdict : h.verdict values = .okay next)
    (hrest : Refused last next rest) : Refused last q p

/-- Each packet is one message, up to one that ends the connection. -/
def Framed : Parser → List Bytes → Prop
  | _, [] => True
  | q, p :: ps =>
    match fit peer q p with
    | some (.okay next) => Framed next ps
    | some _ => True
    | none => Refused peer (ps = []) q p

/-- The filter when the packet has arrived, and nothing else. -/
def alone (p : Bytes) : PacketStreamFilter where
  size := p.length
  buffer := ({} : StreamBuffer).write p

/-- The messages of the packets `ps` that the filter delivers are read from their own packets.  A
packet that is not one message is a protocol error, and the bytes behind it are not touched. -/
def Isolated : Parser → PacketStreamFilter → List Bytes → Prop
  | _, _, [] => True
  | q, f, p :: ps =>
    let message := handleMessage peer PacketStreamFilter.read q f
    message.1 = (handleMessage peer PacketStreamFilter.read q (alone p)).1 ∧
      ps <:+ message.2.delivers ∧
      match fit peer q p with
      | some _ => message.2.delivers = ps ∧ ∀ code values next,
          message.1 = .okay code values next → Isolated next message.2 ps
      | none => ∃ fuel f', handleData peer PacketStreamFilter.read fuel q f = some (.error, f') ∧
          ps <:+ f'.delivers

/-! ### Messages of a list of packets -/

/-- The packets with what is left of the first one. -/
def unread (rest : Bytes) (ps : List Bytes) : List Bytes := if rest = [] then ps else rest :: ps

/-- What becomes of the packet if it is alone, and what is left of it. -/
def decode (q : Parser) (p : Bytes) : Outcome × Bytes :=
  if p.length < 4 then (.error, [])
  else
    match peer.lookup q (p.take 4) with
    | none => (.error, p.drop 4)
    | some h =>
      match readf Reading.take h.fields (p.drop 4) with
      | (.error _, rest) => (.error, rest)
      | (.ok values, rest) => (.ofVerdict (p.take 4) values (h.verdict values), rest)

/-- The handler of the packet wants more than the packet has. -/
def Lacking (q : Parser) (p : Bytes) : Prop :=
  4 ≤ p.length ∧ ∃ h, peer.lookup q (p.take 4) = some h ∧ Short h (p.drop 4)

variable {peer} {q : Parser} {p rest : Bytes} {ps : List Bytes}

open Packets (Filled Left)

theorem length_unread : (unread rest ps).flatten.length = rest.length + ps.flatten.length := by
  unfold unread
  split_ifs with hrest
  · rw [hrest, List.length_nil, Nat.zero_add]
  · rw [List.flatten_cons, List.length_append]

theorem suffix_unread : ps <:+ unread rest ps := by
  unfold unread
  split_ifs
  · exact List.suffix_refl _
  · exact List.suffix_cons _ _

/-- What is left of the packets is known from the bytes that are left. -/
theorem left_eq_unread {s : List Bytes} (hps : Filled ps) (hrest : rest <:+ p)
    (h : Left (p :: ps) s (rest ++ ps.flatten)) : s = unread rest ps := by
  obtain ⟨k, hk, rfl, hbytes⟩ := h
  obtain ⟨front, rfl⟩ := hrest
  have hlength := congrArg List.length hbytes
  rw [List.length_drop, List.flatten_cons, List.length_append, List.length_append,
    List.length_append] at hlength
  rw [List.flatten_cons, List.length_append, List.length_append] at hk
  obtain rfl : k = front.length := by omega
  unfold unread
  split_ifs with hnil
  · rw [hnil, List.append_nil, Packets.drop_of_le (Nat.le_refl _), Nat.sub_self,
      Packets.drop_zero hps]
  · have hpos := List.length_pos_iff.2 hnil
    rw [Packets.drop_of_lt (by rw [List.length_append]; omega), List.drop_left]

/-- The fields behind the code. -/
theorem left_readf (h : Handler) (hps : Filled (p :: ps)) (hfour : 4 ≤ p.length) :
    (readf (ProtocolUtil.read Packets.read) h.fields (Packets.drop 4 (p :: ps))).1 =
        (readf Reading.take h.fields (p.drop 4 ++ ps.flatten)).1 ∧
      Left (p :: ps)
        (readf (ProtocolUtil.read Packets.read) h.fields (Packets.drop 4 (p :: ps))).2
        (readf Reading.take h.fields (p.drop 4 ++ ps.flatten)).2 := by
  refine ProtocolUtil.sim_readf (Packets.sim_read hps) h.fields _ _ ⟨4, ?_, rfl, ?_⟩
  · rw [List.flatten_cons, List.length_append]
    omega
  · rw [List.flatten_cons, List.drop_append_of_le_length hfour]

theorem handleMessage_eq_parse (hfour : 4 ≤ p.length) :
    handleMessage peer Packets.read q (p :: ps) =
      parse peer Packets.read q (p.take 4) (Packets.drop 4 (p :: ps)) := by
  have hlength : (p.take 4).length = 4 := by
    rw [List.length_take]
    omega
  unfold handleMessage
  simp only [Packets.read, hlength, Nat.min_eq_left hfour]
  rfl

/-- **A message whose fields are in its packet**, or that has no packet behind, is read from its
own packet. -/
theorem handleMessage_of_whole (hps : Filled (p :: ps)) (hwhole : Lacking peer q p → ps = []) :
    handleMessage peer Packets.read q (p :: ps) =
      ((decode peer q p).1, unread (decode peer q p).2 ps) := by
  obtain ⟨hp, hps'⟩ := List.forall_mem_cons.1 hps
  have hpos := List.length_pos_iff.2 hp
  unfold decode
  by_cases hfour : p.length < 4
  · rw [if_pos hfour, unread, if_pos rfl]
    have hlength : (p.take 4).length = p.length := by
      rw [List.length_take]
      omega
    unfold handleMessage
    simp only [Packets.read, hlength]
    rw [if_neg (by omega), if_pos (by omega), Nat.min_eq_right (by omega),
      Packets.drop_of_le (Nat.le_refl _), Nat.sub_self, Packets.drop_zero hps']
  rw [if_neg hfour, handleMessage_eq_parse (by omega)]
  unfold parse
  cases hlookup : peer.lookup q (p.take 4) with
  | none =>
    refine Prod.ext rfl ?_
    show Packets.drop 4 (p :: ps) = unread (p.drop 4) ps
    refine left_eq_unread hps' (List.drop_suffix 4 p) ⟨4, ?_, rfl, ?_⟩
    · rw [List.flatten_cons, List.length_append]
      omega
    · rw [List.flatten_cons, List.drop_append_of_le_length (by omega)]
  | some h =>
    obtain ⟨hval, hleft⟩ := left_readf h hps (by omega)
    have hsuffix := ProtocolUtil.suffix_readf h.fields (p.drop 4)
    have hbytes : readf Reading.take h.fields (p.drop 4 ++ ps.flatten) =
        ((readf Reading.take h.fields (p.drop 4)).1,
          (readf Reading.take h.fields (p.drop 4)).2 ++ ps.flatten) := by
      by_cases hshort : Short h (p.drop 4)
      · rw [hwhole ⟨by omega, h, hlookup, hshort⟩, List.flatten_nil, List.append_nil,
          List.append_nil]
      · exact ProtocolUtil.readf_append h.fields hshort ps.flatten
    rw [hbytes] at hval hleft
    have hstate := left_eq_unread hps' (hsuffix.trans (List.drop_suffix 4 p)) hleft
    dsimp only
    rcases hs : readf (ProtocolUtil.read Packets.read) h.fields (Packets.drop 4 (p :: ps)) with
      ⟨r, s⟩
    rcases hb : readf Reading.take h.fields (p.drop 4) with ⟨r', rest⟩
    rw [hs, hb] at hval hstate
    obtain rfl : r = r' := hval
    obtain rfl : s = unread rest ps := hstate
    cases r with
    | error e => rfl
    | ok values => rfl

/-- **A message whose fields are not** takes bytes of the packets behind. -/
theorem handleMessage_of_lacking (hps : Filled (p :: ps)) (hlacking : Lacking peer q p)
    (hmore : ps ≠ []) :
    (handleMessage peer Packets.read q (p :: ps)).2.flatten.length < ps.flatten.length := by
  obtain ⟨hfour, h, hlookup, hshort⟩ := hlacking
  obtain ⟨-, hps'⟩ := List.forall_mem_cons.1 hps
  obtain ⟨-, k, hk, hstate, hbytes⟩ := left_readf h hps hfour
  have hflatten : ps.flatten ≠ [] := fun hnil => by
    cases ps with
    | nil => exact hmore rfl
    | cons p' ps =>
      exact hps' p' (List.mem_cons_self ..)
        (List.flatten_eq_nil_iff.1 hnil p' (List.mem_cons_self ..))
  have hlength := ProtocolUtil.length_readf_append h.fields hshort hflatten
  rw [hbytes, ← Packets.flatten_drop, ← hstate] at hlength
  rw [handleMessage_eq_parse hfour]
  unfold parse
  rw [hlookup]
  dsimp only
  rcases hs : readf (ProtocolUtil.read Packets.read) h.fields (Packets.drop 4 (p :: ps)) with
    ⟨e | values, s⟩
  · rwa [hs] at hlength
  · rwa [hs] at hlength

/-! ### Progress of the loop -/

variable (peer)

theorem suffix_decode (q : Parser) (p : Bytes) : (decode peer q p).2 <:+ p.drop 4 := by
  unfold decode
  split_ifs
  · exact List.nil_suffix
  · cases peer.lookup q (p.take 4) with
    | none => exact List.suffix_refl _
    | some h =>
      have hsuffix := ProtocolUtil.suffix_readf h.fields (p.drop 4)
      dsimp only
      rcases hread : readf Reading.take h.fields (p.drop 4) with ⟨e | values, rest⟩
      · rwa [hread] at hsuffix
      · rwa [hread] at hsuffix

theorem length_decode_lt (q : Parser) (hp : p ≠ []) : (decode peer q p).2.length < p.length := by
  have hle := (suffix_decode peer q p).length_le
  have hpos := List.length_pos_iff.2 hp
  rw [List.length_drop] at hle
  omega

theorem sameReads_filled :
    ProtocolUtil.SameReads (fun s t => s = t ∧ Filled s) Packets.read Packets.read := by
  rintro s t ⟨rfl, hs⟩ n
  refine ⟨rfl, rfl, ?_⟩
  cases s with
  | nil => exact hs
  | cons p ps => exact Packets.filled_drop hs _

theorem filled_handleMessage (hps : Filled ps) (q : Parser) :
    Filled (handleMessage peer Packets.read q ps).2 :=
  (Peer.sim_handleMessage peer sameReads_filled q ⟨rfl, hps⟩).2.2

/-- A message takes bytes. -/
theorem length_handleMessage_lt (hps : Filled (p :: ps)) (q : Parser) :
    (handleMessage peer Packets.read q (p :: ps)).2.flatten.length < (p :: ps).flatten.length := by
  obtain ⟨hp, -⟩ := List.forall_mem_cons.1 hps
  have hlength : (p :: ps).flatten.length = p.length + ps.flatten.length := by
    rw [List.flatten_cons, List.length_append]
  by_cases hwhole : Lacking peer q p → ps = []
  · rw [handleMessage_of_whole hps hwhole, length_unread]
    have hlt := length_decode_lt peer q hp
    omega
  · obtain ⟨hlacking, hmore⟩ := Classical.not_imp.1 hwhole
    have hlt := handleMessage_of_lacking hps hlacking hmore
    omega

/-- The loop ends. -/
theorem isSome_handleData {fuel : ℕ} (hps : Filled ps) (hfuel : ps.flatten.length < fuel)
    (q : Parser) : (handleData peer Packets.read fuel q ps).isSome := by
  induction fuel generalizing q ps with
  | zero => omega
  | succ fuel ih =>
    cases ps with
    | nil => rfl
    | cons p ps =>
      have hlt := length_handleMessage_lt peer hps q
      have hfilled := filled_handleMessage peer hps q
      rcases hmessage : handleMessage peer Packets.read q (p :: ps) with ⟨outcome, s⟩
      rw [hmessage] at hlt hfilled
      cases outcome with
      | okay code values next =>
        rw [Peer.handleData_of_okay peer _ hmessage]
        exact ih hfilled (Nat.lt_of_lt_of_le hlt (Nat.le_of_lt_succ hfuel)) next
      | idle =>
        rw [Peer.handleData_of_end peer _ hmessage nofun]
        rfl
      | error =>
        rw [Peer.handleData_of_end peer _ hmessage nofun]
        rfl
      | closed code values =>
        rw [Peer.handleData_of_end peer _ hmessage nofun]
        rfl

variable {peer}

/-- The loop takes bytes, unless there is no message. -/
theorem length_handleData {fuel : ℕ} {r : Outcome × List Bytes} (hps : Filled ps)
    (h : handleData peer Packets.read fuel q ps = some r) :
    r.2.flatten.length ≤ ps.flatten.length ∧
      (r.1 = .error → r.2.flatten.length < ps.flatten.length) := by
  induction fuel generalizing q ps with
  | zero => cases h
  | succ fuel ih =>
    cases ps with
    | nil =>
      cases h
      exact ⟨Nat.le_refl _, nofun⟩
    | cons p ps =>
      have hlt := length_handleMessage_lt peer hps q
      have hfilled := filled_handleMessage peer hps q
      obtain ⟨code, values, next, s, hmessage, hdata⟩ | hmessage := Peer.handleData_cases peer _ h
      · rw [hmessage] at hlt hfilled
        have hle := (ih hfilled hdata).1.trans_lt hlt
        exact ⟨hle.le, fun _ => hle⟩
      · rw [hmessage] at hlt
        exact ⟨hlt.le, fun _ => hlt⟩

theorem length_le_of_suffix {s : List Bytes} (h : ps <:+ s) :
    ps.flatten.length ≤ s.flatten.length := by
  obtain ⟨front, rfl⟩ := h
  rw [List.flatten_append, List.length_append]
  exact Nat.le_add_left ..

/-! ### Refused packets -/

theorem Refused.ne_nil {last : Prop} (h : Refused peer last q p) : p ≠ [] := by
  rintro rfl
  cases h with
  | code hne _ => exact hne rfl
  | unknown hlength _ => cases hlength
  | limit hlength _ _ => cases hlength
  | invalid hlength _ _ _ _ => cases hlength
  | next hlength _ _ _ _ _ => cases hlength

theorem Refused.whole (h : Refused peer (ps = []) q p) : Lacking peer q p → ps = [] := by
  rintro ⟨hfour, handler, hlookup, hshort⟩
  cases h with
  | code _ hlength => omega
  | unknown _ hlookup' => rw [hlookup] at hlookup'; cases hlookup'
  | limit _ hlookup' hread =>
    rw [hlookup] at hlookup'
    cases hlookup'
    rw [readf] at hread
    rcases hv : vreadf Reading.take handler.fields (p.drop 4) with ⟨r, rest⟩
    rw [Short, hv] at hshort
    obtain rfl : r = .error .endOfStream := hshort
    rw [hv] at hread
    cases hread
  | invalid _ hlookup' _ hlast _ =>
    rw [hlookup] at hlookup'
    cases hlookup'
    exact hlast hshort
  | next _ hlookup' _ hlast _ _ =>
    rw [hlookup] at hlookup'
    cases hlookup'
    exact hlast hshort

theorem decode_of_read {h : Handler} {values : Option (List Value)} (hfour : 4 ≤ p.length)
    (hlookup : peer.lookup q (p.take 4) = some h)
    (hread : readf Reading.take h.fields (p.drop 4) = (.ok values, rest)) :
    decode peer q p = (.ofVerdict (p.take 4) values (h.verdict values), rest) := by
  unfold decode
  rw [if_neg (by omega), hlookup]
  dsimp only
  rw [hread]

/-- A refused packet ends the connection before the packets behind are touched. -/
theorem Refused.handleData (h : Refused peer (ps = []) q p) (hps : Filled ps) :
    ∃ fuel s, handleData peer Packets.read fuel q (p :: ps) = some (.error, s) ∧ ps <:+ s := by
  have hstep {q : Parser} {p : Bytes} (h : Refused peer (ps = []) q p) :=
    handleMessage_of_whole (.cons h.ne_nil hps) h.whole
  have hend {q : Parser} {p : Bytes} (h : Refused peer (ps = []) q p)
      (herror : (decode peer q p).1 = .error) :
      ∃ fuel s, Peer.handleData peer Packets.read fuel q (p :: ps) = some (.error, s) ∧
        ps <:+ s := by
    have hmessage := hstep h
    rw [herror] at hmessage
    exact ⟨1, _, Peer.handleData_of_end peer _ hmessage nofun 0, suffix_unread⟩
  induction h with
  | code hne hlength =>
    refine hend (.code hne hlength) ?_
    rw [decode, if_pos hlength]
  | unknown hlength hlookup =>
    refine hend (.unknown hlength hlookup) ?_
    rw [decode, if_neg (by omega), hlookup]
  | limit hlength hlookup hread =>
    refine hend (.limit hlength hlookup hread) ?_
    rw [decode, if_neg (by omega), hlookup]
    dsimp only
    rcases hb : readf Reading.take _ (List.drop 4 _) with ⟨r, rest⟩
    rw [hb] at hread
    obtain rfl : r = _ := hread
    rfl
  | invalid hlength hlookup hread hlast hverdict =>
    refine hend (.invalid hlength hlookup hread hlast hverdict) ?_
    rw [decode_of_read hlength hlookup hread, hverdict]
    rfl
  | next hlength hlookup hread hlast hverdict hrest ih =>
    obtain ⟨fuel, s, hdata, hsuffix⟩ := ih
    have hmessage := hstep (.next hlength hlookup hread hlast hverdict hrest)
    rw [decode_of_read hlength hlookup hread, hverdict, unread, if_neg hrest.ne_nil] at hmessage
    refine ⟨fuel + 1, s, ?_, hsuffix⟩
    rw [Peer.handleData_of_okay peer _ hmessage]
    exact hdata

/-- If a protocol error leaves the packets behind alone, then the packet is refused. -/
theorem refused_of_handleData {fuel : ℕ} {s : List Bytes} (hps : Filled (p :: ps))
    (h : handleData peer Packets.read fuel q (p :: ps) = some (.error, s)) (hsuffix : ps <:+ s) :
    Refused peer (ps = []) q p := by
  induction fuel generalizing q p with
  | zero => cases h
  | succ fuel ih =>
    obtain ⟨hp, hps'⟩ := List.forall_mem_cons.1 hps
    have hle := length_le_of_suffix hsuffix
    have hfilled := filled_handleMessage peer hps q
    by_cases hwhole : Lacking peer q p → ps = []
    · have hshort {handler : Handler} (hfour : 4 ≤ p.length)
          (hlookup : peer.lookup q (p.take 4) = some handler) :
          Short handler (p.drop 4) → ps = [] :=
        fun hshort => hwhole ⟨hfour, handler, hlookup, hshort⟩
      have hmessage := handleMessage_of_whole hps hwhole
      unfold decode at hmessage
      by_cases hfour : p.length < 4
      · exact .code hp hfour
      rw [if_neg hfour] at hmessage
      cases hlookup : peer.lookup q (p.take 4) with
      | none => exact .unknown (by omega) hlookup
      | some handler =>
        rw [hlookup] at hmessage
        dsimp only at hmessage
        rcases hread : readf Reading.take handler.fields (p.drop 4) with ⟨e | values, rest⟩
        · exact .limit (e := e) (by omega) hlookup (by rw [hread])
        rw [hread] at hmessage
        dsimp only at hmessage
        cases hverdict : handler.verdict values with
        | unknown => exact .invalid (by omega) hlookup hread (hshort (by omega) hlookup) hverdict
        | disconnect =>
          rw [hverdict] at hmessage
          rw [Peer.handleData_of_end peer _ hmessage nofun] at h
          cases h
        | okay next =>
          rw [hverdict] at hmessage
          rw [Peer.handleData_of_okay peer _ hmessage] at h
          unfold unread at h
          split_ifs at h with hrest
          · -- The error would be one of the packets behind.
            have hlt := (length_handleData hps' h).2 rfl
            exact absurd hle (Nat.not_le.2 hlt)
          · exact .next (by omega) hlookup hread (hshort (by omega) hlookup) hverdict
              (ih (.cons hrest hps') h)
    · -- The message takes bytes of the packets behind.
      obtain ⟨hlacking, hmore⟩ := Classical.not_imp.1 hwhole
      have hlt := handleMessage_of_lacking hps hlacking hmore
      refine absurd hle (Nat.not_le.2 (Nat.lt_of_le_of_lt ?_ hlt))
      obtain ⟨code, values, next, s', hmessage, hdata⟩ | hmessage := Peer.handleData_cases peer _ h
      · rw [hmessage] at hfilled ⊢
        exact (length_handleData hfilled hdata).1
      · rw [hmessage]

/-! ### Messages of a filter -/

variable {f : PacketStreamFilter}

/-- The buffer is in order, and can count whatever is discarded of it. -/
structure Sound (f : PacketStreamFilter) : Prop where
  ok : Ok f.buffer
  held : f.buffer.held ≤ 2 ^ 32

theorem sameReads_delivers :
    ProtocolUtil.SameReads (fun f s => Sound f ∧ f.delivers = s) PacketStreamFilter.read
      Packets.read := by
  rintro f s ⟨hf, rfl⟩ n
  obtain ⟨hdata, hdelivers, hok⟩ :=
    PacketStreamFilter.delivers_read hf.ok (PacketStreamFilter.readCounts_of_held hf.held n)
  exact ⟨hdata, ⟨hok, (f.held_read_le n).trans hf.held⟩, hdelivers⟩

variable (peer q) in
/-- **A filter's messages** are those of the packets that it delivers. -/
theorem handleMessage_delivers (hf : Sound f) :
    (handleMessage peer PacketStreamFilter.read q f).1 =
        (handleMessage peer Packets.read q f.delivers).1 ∧
      Sound (handleMessage peer PacketStreamFilter.read q f).2 ∧
      (handleMessage peer PacketStreamFilter.read q f).2.delivers =
        (handleMessage peer Packets.read q f.delivers).2 :=
  Peer.sim_handleMessage peer sameReads_delivers q ⟨hf, rfl⟩

variable (peer q) in
theorem handleData_delivers (hf : Sound f) (fuel : ℕ) :
    handleData peer Packets.read fuel q f.delivers =
      (handleData peer PacketStreamFilter.read fuel q f).map fun r => (r.1, r.2.delivers) := by
  have hrel := Peer.sim_handleData peer sameReads_delivers fuel q (And.intro hf rfl)
  generalize handleData peer PacketStreamFilter.read fuel q f = r at hrel ⊢
  generalize handleData peer Packets.read fuel q f.delivers = r' at hrel ⊢
  cases hrel with
  | none => rfl
  | some h =>
    obtain ⟨houtcome, -, hstate⟩ := h
    exact congrArg some (Prod.ext houtcome.symm hstate.symm)

theorem alone_spec (hp : p ≠ []) (hlength : p.length < 2 ^ 32) :
    Sound (alone p) ∧ (alone p).delivers = [p] := by
  have hcontents : (alone p).buffer.contents = p :=
    StreamBuffer.contents_write StreamBuffer.ok_empty p
  have hok : Ok (alone p).buffer :=
    StreamBuffer.ok_empty.write (by show 0 + p.length < 2 ^ 32; omega)
  have hready : (alone p).isReady = true := by
    refine (PacketStreamFilter.isReady_iff hok).2 ⟨fun hzero => ?_, ?_⟩
    · exact hp (List.length_eq_zero_iff.1 hzero)
    · rw [hcontents]
      exact Nat.le_refl _
  refine ⟨⟨hok, ?_⟩, ?_⟩
  · refine (StreamBuffer.held_write {} p).le.trans ?_
    show 0 + p.length ≤ 2 ^ 32
    omega
  rw [PacketStreamFilter.delivers, if_pos hready, hcontents]
  show p.take p.length :: unframe p.length (p.drop p.length) = [p]
  rw [List.take_length, List.drop_length, unframe_of_short (.inl (by decide))]

theorem length_lt_of_delivers (hf : Ok f.buffer) (h : f.delivers = p :: ps) :
    p.length < 2 ^ 32 := by
  unfold PacketStreamFilter.delivers at h
  split_ifs at h
  have hp := (List.cons.inj h).1
  have hbound := hf.bound
  rw [← hp, List.length_take]
  omega

theorem fit_eq_some {verdict : Verdict} (h : fit peer q p = some verdict) :
    ¬Lacking peer q p ∧ ∃ values, decode peer q p = (.ofVerdict (p.take 4) values verdict, []) := by
  unfold fit at h
  split_ifs at h with hfour
  cases hlookup : peer.lookup q (p.take 4) with
  | none =>
    rw [hlookup] at h
    cases h
  | some handler =>
    rw [hlookup] at h
    dsimp only at h
    rcases hread : vreadf Reading.take handler.fields (p.drop 4) with ⟨e | values, rest⟩
    · rw [hread] at h
      cases h
    · rw [hread] at h
      cases rest with
      | cons b rest => cases h
      | nil =>
        cases h
        refine ⟨?_, some values, ?_⟩
        · rintro ⟨-, handler', hlookup', hshort⟩
          rw [hlookup] at hlookup'
          cases hlookup'
          rw [Short, hread] at hshort
          cases hshort
        · refine decode_of_read (by omega) hlookup ?_
          rw [readf, hread]

/-- A filter whose packets are framed, and only such a filter, isolates them. -/
theorem isolated_iff_of_sound (hf : Sound f) (h : f.delivers = ps) :
    Isolated peer q f ps ↔ Framed peer q ps := by
  induction ps generalizing q f with
  | nil => exact Iff.rfl
  | cons p ps ih =>
    have hps : Filled (p :: ps) := h ▸ PacketStreamFilter.filled_delivers hf.ok
    obtain ⟨hp, hps'⟩ := List.forall_mem_cons.1 hps
    obtain ⟨halone, hdelivers⟩ := alone_spec hp (length_lt_of_delivers hf.ok h)
    obtain ⟨hmessage, hok, hleft⟩ := handleMessage_delivers peer q hf
    obtain ⟨honly, -, -⟩ := handleMessage_delivers peer q halone
    have hsingle : Filled [p] := .cons hp nofun
    rw [h] at hmessage hleft
    rw [hdelivers, handleMessage_of_whole hsingle fun _ => rfl] at honly
    simp only [Isolated, Framed]
    cases hfit : fit peer q p with
    | some verdict =>
      obtain ⟨hwhole, values, hdecode⟩ := fit_eq_some hfit
      rw [handleMessage_of_whole hps fun hlacking => absurd hlacking hwhole, hdecode] at hmessage
      rw [handleMessage_of_whole hps fun hlacking => absurd hlacking hwhole, hdecode] at hleft
      rw [hdecode] at honly
      have hrest : (handleMessage peer PacketStreamFilter.read q f).2.delivers = ps := hleft
      dsimp only
      cases verdict with
      | okay next =>
        have hnext := ih hok hrest (q := next)
        constructor
        · rintro ⟨-, -, -, hisolated⟩
          exact hnext.1 (hisolated _ _ next hmessage)
        · intro hframed
          refine ⟨hmessage.trans honly.symm, hrest ▸ List.suffix_refl _, hrest, ?_⟩
          intro code values' next' hokay
          rw [hmessage] at hokay
          cases hokay
          exact hnext.2 hframed
      | unknown =>
        refine iff_of_true
          ⟨hmessage.trans honly.symm, hrest ▸ List.suffix_refl _, hrest, ?_⟩ trivial
        intro code values' next' hokay
        rw [hmessage] at hokay
        cases hokay
      | disconnect =>
        refine iff_of_true
          ⟨hmessage.trans honly.symm, hrest ▸ List.suffix_refl _, hrest, ?_⟩ trivial
        intro code values' next' hokay
        rw [hmessage] at hokay
        cases hokay
    | none =>
      dsimp only
      constructor
      · rintro ⟨-, -, fuel, f', hdata, hsuffix⟩
        have hlist := handleData_delivers peer q hf fuel
        rw [h, hdata] at hlist
        exact refused_of_handleData hps hlist hsuffix
      · intro hrefused
        have hown := handleMessage_of_whole hps hrefused.whole
        rw [hown] at hmessage hleft
        refine ⟨hmessage.trans honly.symm, hleft ▸ suffix_unread, ?_⟩
        obtain ⟨fuel, s, hdata, hsuffix⟩ := hrefused.handleData hps'
        have hlist := handleData_delivers peer q hf fuel
        rw [h, hdata] at hlist
        obtain ⟨⟨outcome, f'⟩, hfilter, heq⟩ := Option.map_eq_some_iff.1 hlist.symm
        obtain ⟨houtcome, hstate⟩ := Prod.mk.inj heq
        obtain rfl : outcome = .error := houtcome
        exact ⟨fuel, f', hfilter, hstate.symm ▸ hsuffix⟩

/-! ### Runs -/

open InputShutdown (Event lts)

/-- The buffer can count its bytes and those that it discards. -/
def Counted (f : PacketStreamFilter) : Event → Prop
  | .arrive reads =>
    f.buffer.contents.length + (f.stream ++ reads).flatten.length < 2 ^ 32 ∧ f.ArriveCounts reads
  | .read n => f.ReadCounts n
  | .shutdown => True

instance (f : PacketStreamFilter) : ∀ e, Decidable (Counted f e)
  | .arrive _ => inferInstanceAs (Decidable (_ < _ ∧ _))
  | .read n => inferInstanceAs (Decidable (f.ReadCounts n))
  | .shutdown => inferInstanceAs (Decidable True)

theorem ok_of_reachable (hs : lts.ReachableVia Counted f) : Ok f.buffer := by
  refine hs.invariant (I := fun f => Ok f.buffer) ?_ ?_
  · rintro f rfl
    exact StreamBuffer.ok_empty
  · intro f e f' hok hcounted hst
    cases e with
    | arrive reads =>
      cases hst
      exact (InputShutdown.grown_arrive hok hcounted.1 hcounted.2).buffer
    | read n =>
      cases hst
      exact (PacketStreamFilter.delivers_read hok hcounted).2.2
    | shutdown =>
      cases hst
      dsimp only [PacketStreamFilter.filterEvent]
      split_ifs
      · exact hok
      · exact hok

/-- **The messages are isolated exactly for framed packets**, whatever has arrived at the filter
before. -/
theorem isolated_iff (hs : lts.ReachableVia Counted f) (hheld : f.buffer.held ≤ 2 ^ 32)
    (peer : Peer) (q : Parser) : Isolated peer q f f.delivers ↔ Framed peer q f.delivers :=
  isolated_iff_of_sound ⟨ok_of_reachable hs, hheld⟩ rfl

/-- A no-op and the information of a screen arrive, and half of another message. -/
def arriveInfo : List Event :=
  [.arrive [frame [67, 78, 79, 80] ++
    frame [68, 73, 78, 70, 0, 0, 0, 0, 7, 128, 4, 56, 0, 0, 0, 5, 0, 5], [0, 0, 0, 4, 67]]]

theorem isolated_iff_arriveInfo :
    ∃ f : PacketStreamFilter, f.delivers.length = 2 ∧
      Isolated .clientProxy1_6 .handshake f f.delivers := by
  have hrun : (lts.exec {} arriveInfo).map (fun f => (f.delivers, f.buffer.held)) =
      some ([[67, 78, 79, 80],
        [68, 73, 78, 70, 0, 0, 0, 0, 7, 128, 4, 56, 0, 0, 0, 5, 0, 5]], 35) := by decide +kernel
  obtain ⟨f, hs, hend⟩ := Option.map_eq_some_iff.1 hrun
  obtain ⟨hdelivers, hheld⟩ := Prod.mk.inj hend
  have hreachable : lts.ReachableVia Counted f := .of_exec (.init rfl) (by decide +kernel) hs
  refine ⟨f, by rw [hdelivers]; rfl, (isolated_iff hreachable (by rw [hheld]; decide) _ _).2 ?_⟩
  have hnoop : fit .clientProxy1_6 .handshake [67, 78, 79, 80] = some (.okay .handshake) := by
    decide +kernel
  have hinfo : fit .clientProxy1_6 .handshake
      [68, 73, 78, 70, 0, 0, 0, 0, 7, 128, 4, 56, 0, 0, 0, 5, 0, 5] =
        some (.okay .message) := by decide +kernel
  rw [hdelivers]
  simp only [Framed, hnoop, hinfo]

/-- A move of the mouse without the position, and a no-op. -/
def arriveShort : List Event :=
  [.arrive [frame [68, 77, 77, 86] ++ frame [67, 78, 79, 80]]]

/-- The no-op is taken for the position. -/
theorem not_isolated :
    ¬∀ f : PacketStreamFilter, lts.Reachable f → ∀ (peer : Peer) (q : Parser),
      Isolated peer q f f.delivers := by
  intro h
  have hrun : (lts.exec {} arriveShort).map (fun f => (f.delivers,
      (handleMessage .serverProxy PacketStreamFilter.read .message f).2.delivers)) =
        some ([[68, 77, 77, 86], [67, 78, 79, 80]], []) := by decide +kernel
  obtain ⟨f, hs, hvalue⟩ := Option.map_eq_some_iff.1 hrun
  obtain ⟨hdelivers, hleft⟩ := Prod.mk.inj hvalue
  have hreachable : lts.ReachableVia Counted f := .of_exec (.init rfl) (by decide +kernel) hs
  have hisolated := h f hreachable.reachable .serverProxy .message
  rw [hdelivers] at hisolated
  obtain ⟨-, hsuffix, -⟩ := hisolated
  rw [hleft] at hsuffix
  cases hsuffix.length_le

end Framing

end InputLeap
