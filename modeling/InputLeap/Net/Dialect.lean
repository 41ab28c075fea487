import InputLeap.Net.Conversation
import InputLeap.Net.Written

/-!
# Calls through a connection

The program never sees packets: one end makes calls, each of which is one `writef`, and the other
end turns each message back into a call.  What a call keeps on the way are the bytes that its
format has room for.

## Main definitions

* `Dialect` : the calls of one end, their formats, and how the other end reads them.
* `Dialect.Follows` : the order of the calls is one that the parsers of the other end expect.
* `Dialect.lts` : calls are made, segments arrive, and messages are handled, in any order.
* `Dialect.Speaks` : each call is one message that is read as the call that its format has room for.
* `Dialect.Table` : what there is to check about the formats, one call after another.

## Main results

* `Dialect.Table.speaks` : calls with checked formats are spoken.
* `Dialect.Speaks.delivered` : the calls arrive in order and once, and none is lost.
-/

namespace InputLeap

/-- The calls that one end makes and the other one handles. -/
structure Dialect (C : Type) where
  peer : Peer
  /-- What `writef` is called with. -/
  format : C → String
  args : C → List ProtocolUtil.Value
  /-- The call that is read from the fields of a message with this code. -/
  read : Bytes → List ProtocolUtil.Value → Option C
  /-- What the formats have room for. -/
  onWire : C → C
  /-- What the parser of the other end makes of a call, `none` if it does not expect it. -/
  verdict : Parser → C → Option Verdict
  /-- Lists and strings are within the limits of the protocol. -/
  Fit : C → Prop

namespace Dialect

open Conversation (Accepted heard parserAfter)

variable {C : Type} (d : Dialect C)

/-- The bytes of a call. -/
def write (c : C) : Option Bytes := ProtocolUtil.writef (d.format c) (d.args c)

/-- Each call is expected by the parser in use then, up to one that ends the connection. -/
def Follows : Parser → List C → Prop
  | _, [] => True
  | q, c :: cs =>
    match d.verdict q c with
    | some (.okay next) => Follows next cs
    | some .disconnect => True
    | _ => False

/-- The parser of the other end behind the calls, `none` behind one that ends the connection. -/
def after : Parser → List C → Option Parser
  | q, [] => some q
  | q, c :: cs =>
    match d.verdict q c with
    | some (.okay next) => after next cs
    | _ => none

/-- A connection that calls are made on. -/
structure Link (C : Type) where
  conversation : Conversation
  /-- The calls, oldest first. -/
  calls : List C

/-- What happens on a connection. -/
inductive Event (C : Type)
  | call (c : C)
  | arrive (pieces : List Bytes)
  | handle

/-- One step. -/
def step (s : Link C) : Event C → Option (Link C)
  | .call c =>
    (d.write c).bind fun p =>
      (s.conversation.step d.peer (.write p)).map fun t => ⟨t, s.calls ++ [c]⟩
  | .arrive pieces =>
    (s.conversation.step d.peer (.arrive pieces)).map fun t => { s with conversation := t }
  | .handle => (s.conversation.step d.peer .handle).map fun t => { s with conversation := t }

/-- Calls one after the other. -/
def makes : Link C → List C → Option (Link C)
  | s, [] => some s
  | s, c :: cs => (d.step s (.call c)).bind fun s' => makes s' cs

/-- The runs of a new connection. -/
def lts : LTS (Link C) (Event C) where
  init s := s = ⟨{ parser := .handshake }, []⟩
  step := d.step

/-- Calls are within the limits and expected, and the buffer has room for what arrives. -/
def Admits (s : Link C) : Event C → Prop
  | .call c => d.Fit c ∧ d.Follows .handshake (s.calls ++ [c])
  | .arrive pieces => s.conversation.Fits (.arrive pieces)
  | .handle => True

instance decidableFollows : ∀ q cs, Decidable (d.Follows q cs)
  | _, [] => .isTrue trivial
  | q, c :: cs =>
    match h : d.verdict q c with
    | some (.okay next) =>
      have := decidableFollows next cs
      decidable_of_iff (d.Follows next cs) (by simp [Follows, h])
    | some .disconnect => .isTrue (by simp [Follows, h])
    | some .unknown => .isFalse (by simp [Follows, h])
    | none => .isFalse (by simp [Follows, h])

instance [DecidablePred d.Fit] (s : Link C) : ∀ e, Decidable (d.Admits s e)
  | .call _ => inferInstanceAs (Decidable (_ ∧ _))
  | .arrive pieces => inferInstanceAs (Decidable (s.conversation.Fits (.arrive pieces)))
  | .handle => .isTrue trivial

/-- The calls that were handled. -/
def received (s : Link C) : List (Option C) :=
  s.conversation.handled.map fun m => m.2.bind (d.read m.1)

/-- The calls `done` were handled, each once and in order, with what their formats have room for. -/
structure Handled (s : Link C) (done : List C) : Prop where
  calls : done <+: s.calls
  received : d.received s = done.map fun c => some (d.onWire c)
  parser : s.conversation.ending = none ∧
      d.after .handshake done = some s.conversation.parser ∨
    (∃ code values, s.conversation.ending = some (.closed code values)) ∧
      d.after .handshake done = none

/-- What was handled are the first calls, each once and in order, with what their formats have
room for.  There is no protocol error, and nothing is left when all bytes have arrived and were
handled. -/
def Delivered (s : Link C) : Prop :=
  ∃ done todo, s.calls = done ++ todo ∧ d.received s = done.map (fun c => some (d.onWire c)) ∧
    s.conversation.ending ≠ some .error ∧
      (s.conversation.ending = none → s.conversation.stream.wire = [] →
        s.conversation.stream.filter.isReady = false → todo = [])

/-- A call that is expected is one message, which is read as the call. -/
def Speaks : Prop :=
  ∀ q c verdict, d.Fit c → d.verdict q c = some verdict → verdict ≠ .unknown →
    ∃ values p, Peer.Says d.peer q (d.format c) (d.args c) values verdict p ∧
      d.read (p.take 4) values = some (d.onWire c)

variable {d} {s s' : Link C} {q : Parser}

/-! ### Formats -/

/-- The four bytes that say what kind of message it is. -/
def codeOf (format : String) : Bytes := (Handler.unchecked format .message).code

/-- The formats are those of handlers, `fieldsOf` are the fields of a call, and these are read as
the call that the format has room for. -/
structure Table (d : Dialect C) (fieldsOf : C → List ProtocolUtil.Field) : Prop where
  plain : ∀ q, ∀ h ∈ d.peer q, h.Plain
  distinct : ∀ q, ((d.peer q).map Handler.code).Nodup
  fields : ∀ c, ProtocolUtil.scan none ((d.format c).toList.drop 4) = fieldsOf c
  sends : ∀ c, d.Fit c → ProtocolUtil.Sends (fieldsOf c) (d.args c)
  small : ∀ c, d.Fit c →
    4 + (ProtocolUtil.encode (fieldsOf c) (ProtocolUtil.trim (fieldsOf c) (d.args c))).length ≤
      PacketStreamFilter.maxMessageLength
  handled : ∀ q c verdict, d.verdict q c = some verdict →
    ∃ handler ∈ d.peer q, handler.format = d.format c ∧
      handler.verdict (some (ProtocolUtil.trim (fieldsOf c) (d.args c))) = verdict
  reads : ∀ q c verdict, d.verdict q c = some verdict →
    d.read (codeOf (d.format c)) (ProtocolUtil.trim (fieldsOf c) (d.args c)) = some (d.onWire c)

/-- Of elements with distinct keys the one with a given key is found. -/
theorem find?_of_nodup {α β : Type} [BEq β] [LawfulBEq β] {key : α → β} {l : List α} {a : α}
    (h : (l.map key).Nodup) (hmem : a ∈ l) : l.find? (fun x => key x == key a) = some a := by
  induction l with
  | nil => cases hmem
  | cons x l ih =>
    obtain ⟨hx, hl⟩ := List.nodup_cons.1 h
    rcases List.mem_cons.1 hmem with rfl | hmem
    · exact List.find?_cons_of_pos (beq_self_eq_true _)
    · have hne : key x ≠ key a := fun heq => hx (heq ▸ List.mem_map_of_mem hmem)
      rw [List.find?_cons_of_neg (by simpa using hne), ih hl hmem]

/-- **Each call that the other end expects is one message**, which is read as the call. -/
theorem Table.speaks {fieldsOf : C → List ProtocolUtil.Field} (h : d.Table fieldsOf) :
    d.Speaks := by
  intro q c verdict hfit hverdict _
  obtain ⟨handler, hmem, hformat, hv⟩ := h.handled q c verdict hverdict
  have hplain := h.plain q handler hmem
  have hlookup : d.peer.lookup q handler.code = some handler :=
    find?_of_nodup (h.distinct q) hmem
  have hfields : handler.fields = fieldsOf c := by
    rw [Handler.fields, hformat, h.fields]
  have hcode : handler.code = codeOf (d.format c) := by
    rw [Handler.code, hformat]
    rfl
  have hsends : ProtocolUtil.Sends handler.fields (d.args c) := hfields ▸ h.sends c hfit
  have hspoken := Peer.says_of_handler hlookup hplain hsends (hfields ▸ h.small c hfit)
  rw [hfields, hv, hformat] at hspoken
  refine ⟨_, _, hspoken, ?_⟩
  have htake : (handler.code ++ ProtocolUtil.encode (fieldsOf c)
      (ProtocolUtil.trim (fieldsOf c) (d.args c))).take 4 = codeOf (d.format c) := by
    rw [← hcode, ← handler.length_code hplain, List.take_left]
  rw [htake]
  exact h.reads q c verdict hverdict

/-! ### The order of calls -/

theorem after_append (cs ds : List C) :
    d.after q (cs ++ ds) = (d.after q cs).bind fun p => d.after p ds := by
  induction cs generalizing q with
  | nil => rfl
  | cons c cs ih =>
    simp only [List.cons_append, after]
    split
    · exact ih
    · rfl

theorem follows_append (cs ds : List C) :
    d.Follows q (cs ++ ds) ↔
      d.Follows q cs ∧ ∀ p, d.after q cs = some p → d.Follows p ds := by
  induction cs generalizing q with
  | nil => simp [Follows, after]
  | cons c cs ih =>
    simp only [List.cons_append, Follows, after]
    rcases d.verdict q c with _ | (next | _ | _)
    · simp
    · exact ih
    · simp
    · simp

/-! ### The packets of calls -/

/-- The packets are those of the calls. -/
inductive Packed (d : Dialect C) : List C → List Bytes → Prop
  | nil : Packed d [] []
  | cons {c : C} {p : Bytes} {cs : List C} {ps : List Bytes} (hfit : d.Fit c)
      (hwrite : d.write c = some p) (h : Packed d cs ps) : Packed d (c :: cs) (p :: ps)

theorem Packed.concat {c : C} {p : Bytes} {cs : List C} {ps : List Bytes} (h : Packed d cs ps)
    (hfit : d.Fit c) (hwrite : d.write c = some p) : Packed d (cs ++ [c]) (ps ++ [p]) := by
  induction h with
  | nil => exact .cons hfit hwrite .nil
  | cons hfit' hwrite' _ ih => exact .cons hfit' hwrite' ih

/-- The packets of calls that the other end expects are accepted. -/
theorem Packed.accepted (hd : d.Speaks) {cs : List C} {ps : List Bytes} (h : Packed d cs ps)
    (hfollows : d.Follows q cs) : Accepted d.peer q ps := by
  induction h generalizing q with
  | nil => trivial
  | @cons c p cs ps hfit hwrite _ ih =>
    simp only [Follows] at hfollows
    cases hverdict : d.verdict q c with
    | none => simp [hverdict] at hfollows
    | some verdict =>
      have hknown : verdict ≠ .unknown := by
        rintro rfl
        simp [hverdict] at hfollows
      obtain ⟨values, p', hspoken, -⟩ := hd q c verdict hfit hverdict hknown
      obtain rfl : p' = p := Option.some.inj (hspoken.writes.symm.trans hwrite)
      simp only [hverdict] at hfollows
      simp only [Accepted, hspoken.fits]
      cases verdict with
      | okay next => exact ih hfollows
      | unknown => exact absurd rfl hknown
      | disconnect => trivial

/-- Their messages are read as the calls, up to one that ends the connection. -/
theorem Packed.heard (hd : d.Speaks) {cs : List C} {ps : List Bytes} (h : Packed d cs ps)
    (hfollows : d.Follows q cs) :
    ∃ done later, cs = done ++ later ∧
      ((Conversation.heard d.peer q ps).map fun m => m.2.bind (d.read m.1)) =
        done.map (fun c => some (d.onWire c)) ∧
      parserAfter d.peer q ps = d.after q done ∧
      ((parserAfter d.peer q ps).isSome → later = []) := by
  induction h generalizing q with
  | nil => exact ⟨[], [], rfl, rfl, rfl, fun _ => rfl⟩
  | @cons c p cs ps hfit hwrite _ ih =>
    simp only [Follows] at hfollows
    cases hverdict : d.verdict q c with
    | none => simp [hverdict] at hfollows
    | some verdict =>
      have hknown : verdict ≠ .unknown := by
        rintro rfl
        simp [hverdict] at hfollows
      obtain ⟨values, p', hspoken, hread⟩ := hd q c verdict hfit hverdict hknown
      obtain rfl : p' = p := Option.some.inj (hspoken.writes.symm.trans hwrite)
      simp only [hverdict] at hfollows
      cases verdict with
      | okay next =>
        obtain ⟨done, later, rfl, hheard, hafter, hall⟩ := ih hfollows
        refine ⟨c :: done, later, rfl, ?_, ?_, ?_⟩
        · simp [Conversation.heard, hspoken.reads, Peer.Outcome.ofVerdict, hread, hheard]
        · simpa [parserAfter, after, hverdict, hspoken.reads, Peer.Outcome.ofVerdict] using hafter
        · simpa [parserAfter, hspoken.reads, Peer.Outcome.ofVerdict] using hall
      | unknown => exact absurd rfl hknown
      | disconnect =>
        refine ⟨[c], cs, rfl, ?_, ?_, ?_⟩
        · simp [Conversation.heard, hspoken.reads, Peer.Outcome.ofVerdict, hread]
        · simp [parserAfter, after, hverdict, hspoken.reads, Peer.Outcome.ofVerdict]
        · simp [parserAfter, hspoken.reads, Peer.Outcome.ofVerdict]

theorem Packed.append {cs : List C} {done todo : List Bytes} (h : Packed d cs (done ++ todo)) :
    ∃ cs₁ cs₂, cs = cs₁ ++ cs₂ ∧ Packed d cs₁ done ∧ Packed d cs₂ todo := by
  induction done generalizing cs with
  | nil => exact ⟨[], cs, rfl, .nil, h⟩
  | cons p done ih =>
    cases h with
    | @cons c _ cs _ hfit hwrite h =>
      obtain ⟨cs₁, cs₂, rfl, h₁, h₂⟩ := ih h
      exact ⟨c :: cs₁, cs₂, rfl, .cons hfit hwrite h₁, h₂⟩

theorem Follows.of_append {cs later : List C} (h : d.Follows q (cs ++ later)) :
    d.Follows q cs := by
  induction cs generalizing q with
  | nil => trivial
  | cons c cs ih =>
    simp only [List.cons_append, Follows] at h ⊢
    split at h
    · exact ih h
    · trivial
    · exact h.elim

/-! ### Runs -/

/-- The connection is one that packets were written on, those of the calls. -/
structure Inv (d : Dialect C) (s : Link C) : Prop where
  runs : (Conversation.lts d.peer .handshake).ReachableVia Conversation.Fits s.conversation
  packed : Packed d s.calls s.conversation.stream.written
  follows : d.Follows .handshake s.calls

theorem Inv.step {e : Event C} (h : Inv d s) (hadm : d.Admits s e) (hst : d.step s e = some s') :
    Inv d s' := by
  cases e with
  | call c =>
    obtain ⟨p, hwrite, hst⟩ := Option.bind_eq_some_iff.1 hst
    obtain ⟨t, ht, rfl⟩ := Option.map_eq_some_iff.1 hst
    refine ⟨.step h.runs (l := .write p) trivial ht, ?_, hadm.2⟩
    obtain ⟨w, hw, rfl⟩ := Option.map_eq_some_iff.1 ht
    simp only [PacketStream.step] at hw
    split_ifs at hw
    cases hw
    exact h.packed.concat hadm.1 hwrite
  | arrive pieces =>
    obtain ⟨t, ht, rfl⟩ := Option.map_eq_some_iff.1 hst
    refine ⟨.step h.runs (l := .arrive pieces) hadm ht, ?_, h.follows⟩
    obtain ⟨w, hw, rfl⟩ := Option.map_eq_some_iff.1 ht
    simp only [PacketStream.step] at hw
    split_ifs at hw
    cases hw
    exact h.packed
  | handle =>
    obtain ⟨t, ht, rfl⟩ := Option.map_eq_some_iff.1 hst
    have hwritten : t.stream.written = s.conversation.stream.written :=
      Conversation.written_handle ht
    exact ⟨.step h.runs (l := .handle) trivial ht, hwritten ▸ h.packed, h.follows⟩

theorem inv_of_runs (hs : d.lts.ReachableVia d.Admits s) : Inv d s := by
  refine hs.invariant (I := Inv d) ?_ fun s e s' h hadm hst => h.step hadm hst
  rintro _ rfl
  exact ⟨.init rfl, .nil, trivial⟩

/-- What is known about the calls behind a run: those that were handled, and that there are no
others when all bytes have arrived and were handled. -/
theorem Speaks.exists_handled (hd : d.Speaks) (hs : d.lts.ReachableVia d.Admits s) :
    ∃ done, d.Handled s done ∧ (s.conversation.ending = none → s.conversation.stream.wire = [] →
      s.conversation.stream.filter.isReady = false → done = s.calls) := by
  have h := inv_of_runs hs
  obtain ⟨done, todo, hwritten, hhandled, hparser, hall⟩ :=
    Conversation.delivered_of_runs h.runs (h.packed.accepted hd h.follows)
  obtain ⟨cs₁, cs₂, hcalls, h₁, h₂⟩ := (hwritten ▸ h.packed).append
  obtain ⟨first, later, rfl, hheard, hafter, hlater⟩ :=
    h₁.heard hd (hcalls ▸ h.follows).of_append
  rw [List.append_assoc] at hcalls
  refine ⟨first, ⟨⟨later ++ cs₂, hcalls.symm⟩, ?_, by rwa [← hafter]⟩, fun hnone hwire hready => ?_⟩
  · rw [received, hhandled, hheard]
  · obtain rfl := hall hwire hready
    cases h₂
    have hopen : (parserAfter d.peer .handshake done).isSome := by
      rcases hparser with ⟨-, hafter⟩ | ⟨⟨_, _, hend⟩, -⟩
      · rw [hafter]
        rfl
      · rw [hnone] at hend
        cases hend
    rw [hcalls, hlater hopen, List.append_nil, List.append_nil]

/-- **Calls arrive as they were made**, however the bytes are cut into segments and whenever they
are handled. -/
theorem Speaks.delivered (hd : d.Speaks) (hs : d.lts.ReachableVia d.Admits s) :
    d.Delivered s := by
  obtain ⟨done, h, hall⟩ := hd.exists_handled hs
  obtain ⟨todo, hcalls⟩ := h.calls
  refine ⟨done, todo, hcalls.symm, h.received, ?_, fun hnone hwire hready => ?_⟩
  · rcases h.parser with ⟨hopen, -⟩ | ⟨⟨code, values, hend⟩, -⟩
    · simp [hopen]
    · simp [hend]
  · rw [hall hnone hwire hready] at hcalls
    exact List.append_right_eq_self.1 hcalls

theorem step_call {c : C} (hst : d.step s (.call c) = some s') :
    s'.calls = s.calls ++ [c] ∧ s'.conversation.handled = s.conversation.handled ∧
      s'.conversation.ending = s.conversation.ending := by
  obtain ⟨p, -, hst⟩ := Option.bind_eq_some_iff.1 hst
  obtain ⟨t, ht, rfl⟩ := Option.map_eq_some_iff.1 hst
  obtain ⟨w, -, rfl⟩ := Option.map_eq_some_iff.1 ht
  exact ⟨rfl, rfl, rfl⟩

/-- Calls that are within the limits and expected are another part of the run. -/
theorem makes_of_follows {cs : List C} (hs : d.lts.ReachableVia d.Admits s)
    (hfit : ∀ c ∈ cs, d.Fit c) (hfollows : d.Follows .handshake (s.calls ++ cs))
    (hmakes : d.makes s cs = some s') :
    d.lts.ReachableVia d.Admits s' ∧ s'.calls = s.calls ++ cs ∧
      s'.conversation.handled = s.conversation.handled ∧
        s'.conversation.ending = s.conversation.ending := by
  induction cs generalizing s with
  | nil =>
    cases hmakes
    exact ⟨hs, (List.append_nil _).symm, rfl, rfl⟩
  | cons c cs ih =>
    obtain ⟨t, ht, hmakes⟩ := Option.bind_eq_some_iff.1 hmakes
    obtain ⟨hcalls, hhandled, hending⟩ := step_call ht
    have hassoc : t.calls ++ cs = s.calls ++ c :: cs := by
      rw [hcalls, List.append_assoc, List.singleton_append]
    have hadm : d.Admits s (.call c) := by
      refine ⟨hfit c List.mem_cons_self, ?_⟩
      rw [← hassoc, hcalls] at hfollows
      exact hfollows.of_append
    obtain ⟨hs', hcalls', hhandled', hending'⟩ := ih (.step hs (l := .call c) hadm ht)
      (fun c' hmem => hfit c' (List.mem_cons_of_mem _ hmem)) (hassoc ▸ hfollows) hmakes
    exact ⟨hs', hcalls'.trans hassoc, hhandled'.trans hhandled, hending'.trans hending⟩

theorem length_received (s : Link C) : (d.received s).length = s.conversation.handled.length :=
  List.length_map _

/-- A round handles the next call, or none. -/
theorem Speaks.handles (hd : d.Speaks) (hs : d.lts.ReachableVia d.Admits s)
    (hst : d.step s .handle = some s') :
    s'.calls = s.calls ∧ (d.received s' = d.received s ∧
        s.conversation.ending = none ∧ s'.conversation.ending = none ∨
      ∃ c, s.calls[s.conversation.handled.length]? = some c ∧
        d.received s' = d.received s ++ [some (d.onWire c)]) := by
  have hs' : d.lts.ReachableVia d.Admits s' := .step hs (l := .handle) trivial hst
  obtain ⟨t, ht, rfl⟩ := Option.map_eq_some_iff.1 hst
  obtain ⟨done, hdone, -⟩ := hd.exists_handled hs
  obtain ⟨done', hdone', -⟩ := hd.exists_handled hs'
  obtain ⟨hopen, ⟨hsame, hend⟩ | ⟨m, hmore⟩⟩ := Conversation.handled_handle ht
  · refine ⟨rfl, .inl ⟨by rw [received, received, hsame], hopen, ?_⟩⟩
    rcases hend with hnone | herror
    · exact hnone
    · rcases hdone'.parser with ⟨hnone, -⟩ | ⟨⟨code, values, hclosed⟩, -⟩
      · exact hnone
      · rw [herror] at hclosed
        cases hclosed
  · have hreceived : d.received { s with conversation := t } =
        d.received s ++ [m.2.bind (d.read m.1)] := by
      rw [received, received, hmore, List.map_append]
      rfl
    rw [hdone.received, hdone'.received] at hreceived
    have hlength : done'.length = done.length + 1 := by
      have h := congrArg List.length hreceived
      simpa using h
    have hhandled : s.conversation.handled.length = done.length := by
      rw [← length_received (d := d), hdone.received, List.length_map]
    have hlt : done.length < done'.length := by omega
    refine ⟨rfl, .inr ⟨done'[done.length], ?_, ?_⟩⟩
    · rw [hhandled]
      obtain ⟨later, hlater⟩ := hdone'.calls
      rw [← hlater, List.getElem?_append_left hlt]
      exact List.getElem?_eq_getElem hlt
    · have hlast := congrArg (fun l => l[done.length]?) hreceived
      rw [hdone'.received, hdone.received, hreceived]
      simp only [List.getElem?_map, List.getElem?_eq_getElem hlt, Option.map_some] at hlast
      rw [List.getElem?_append_right (by simp)] at hlast
      simpa using hlast.symm

end Dialect

end InputLeap
