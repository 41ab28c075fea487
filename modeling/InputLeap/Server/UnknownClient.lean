import InputLeap.LTS.Basic
import InputLeap.Net.Messages
import InputLeap.Net.Writef

/-!
# Clients that have not said who they are

The server greets a client and waits for its reply (`ClientProxyUnknown`).  The stream is moved
into the connection of the new proxy before the version is known to be one that has a proxy; for
the others the error message is written to a stream that is not there any more.

## Main definitions

* `IStream` : what is used of a stream.
* `ClientProxyUnknown` : the members, with a count of the moves of the stream.
* `ClientProxyUnknown.handleData` : the handler of the reply.
* `ClientProxyUnknown.lts` : the handlers in any order that the event queue allows.
* `ClientProxyUnknown.Answers` : the reply leads to the proxy of its version, or to the error
  message of its case and a closed stream.

## Main results

* `answers_iff_of_reachable` : a reply is answered exactly if its version is not a valid number
  without a proxy, and the stream is moved at most once.
-/

namespace InputLeap

/-- What is used of a stream. -/
class IStream (σ : Type) where
  /-- At most so many of the bytes that are there. -/
  read : σ → ℕ → Bytes × σ
  /-- How many are there. -/
  getSize : σ → ℕ
  write : σ → Bytes → σ
  close : σ → σ

/-- The format of the reply to a hello. -/
def msgHelloBack : String := "Barrier%2i%2i%s"

/-- The version of the server. -/
def protocolMajorVersion : ℕ := 1

/-- The version of the server. -/
def protocolMinorVersion : ℕ := 7

/-- The longest reply to a hello (`kMaxHelloLength`). -/
def maxHelloLength : ℕ := 1024

/-- The classes of proxies. -/
inductive ProxyClass
  | clientProxy1_6
  | clientProxy1_7
  deriving DecidableEq

/-- The highest version that a client supports, and its name. -/
structure Hello where
  major : ℤ
  minor : ℤ
  name : Bytes
  deriving DecidableEq

/-- A version that numbers can stand for. -/
def Hello.Valid (h : Hello) : Prop := 0 < h.major ∧ 0 ≤ h.minor

/-- The class for the version, if it is a supported one. -/
def Hello.proxyClass (h : Hello) : Option ProxyClass :=
  if h.major = 1 then
    if h.minor = 6 then some .clientProxy1_6
    else if h.minor = 7 then some .clientProxy1_7
    else none
  else none

instance (h : Hello) : Decidable h.Valid := inferInstanceAs (Decidable (_ ∧ _))

/-- A proxy that owns the stream of its client. -/
structure UnknownProxy (σ : Type) where
  proxyClass : ProxyClass
  name : Bytes
  stream : σ

/-- The events that `ClientProxyUnknown` sends. -/
inductive UnknownEvent
  | success
  | failure
  deriving DecidableEq

/-- A client that has not replied to the hello. -/
structure ClientProxyUnknown (σ : Type) where
  stream : Option σ
  proxy : Option (UnknownProxy σ) := none
  ready : Bool := false
  timer : Bool := true
  /-- The handlers of the events of the stream are installed. -/
  streamHandlers : Bool := true
  /-- The handlers of the events of the proxy are installed. -/
  proxyHandlers : Bool := false
  /-- What was sent, oldest first. -/
  events : List UnknownEvent := []
  /-- How often the stream was moved.  The program does not keep this. -/
  moves : ℕ := 0

namespace ClientProxyUnknown

open ProtocolUtil (Value fields readf writef)

variable {σ : Type} [IStream σ]

/-- The bytes of a message. -/
def message (fmt : String) (args : List Value) : Bytes := (writef fmt args).getD []

/-- Reads the reply; `none` if it is too long or is none. -/
def parseHello (stream : σ) : Option Hello × σ :=
  if maxHelloLength < IStream.getSize stream then (none, stream)
  else
    match readf (ProtocolUtil.read IStream.read) (fields msgHelloBack) stream with
    | (.ok (some [.int major, .int minor, .string name]), stream) =>
      (some ⟨(BitVec.ofNat 16 major).toInt, (BitVec.ofNat 16 minor).toInt, name⟩, stream)
    | (_, stream) => (none, stream)

/-- A new proxy asks its client for its shape. -/
def newProxy (proxyClass : ProxyClass) (name : Bytes) (stream : σ) : UnknownProxy σ :=
  ⟨proxyClass, name, IStream.write stream (message msgQInfo [])⟩

/-- The state after the hello was sent. -/
def create (stream : σ) : ClientProxyUnknown σ := { stream := some stream }

variable (u : ClientProxyUnknown σ)

/-- Removes the handlers of what is there. -/
def removeHandlers : ClientProxyUnknown σ :=
  { u with
    streamHandlers := if u.stream.isSome then false else u.streamHandlers
    proxyHandlers := if u.proxy.isSome then false else u.proxyHandlers }

def removeTimer : ClientProxyUnknown σ := { u with timer := false }

def sendSuccess : ClientProxyUnknown σ :=
  let u := { u with ready := true }.removeTimer
  { u with events := u.events ++ [.success] }

def sendFailure : ClientProxyUnknown σ :=
  let u := ({ u with proxy := none, ready := false }.removeHandlers).removeTimer
  { u with events := u.events ++ [.failure] }

/-- Moves the stream into the connection of a proxy. -/
def moveStream : ClientProxyUnknown σ := { u with stream := none, moves := u.moves + 1 }

/-- Writes a message; `none` writes to a stream that is not there. -/
def writeMessage (fmt : String) (args : List Value) : Option (ClientProxyUnknown σ) :=
  u.stream.map fun stream => { u with stream := some (IStream.write stream (message fmt args)) }

/-- Why the reply is refused. -/
inductive HelloError
  /-- `XIncompatibleClient`. -/
  | incompatible (major minor : ℤ)
  /-- `XBadClient`. -/
  | badClient

/-- Makes a proxy for the client, or throws. -/
def tryHello (stream : σ) : Except HelloError Unit × ClientProxyUnknown σ :=
  let (reply, stream) := parseHello stream
  let u := { u with stream := some stream }
  match reply with
  | none => (.error .badClient, u)
  | some hello =>
    if hello.major ≤ 0 ∨ hello.minor < 0 then
      (.error (.incompatible hello.major hello.minor), u)
    else
      let u := u.removeHandlers.moveStream
      match hello.proxyClass with
      | none => (.error (.incompatible hello.major hello.minor), u)
      | some proxyClass =>
        (.ok (), { u with
          proxy := some (newProxy proxyClass hello.name stream)
          proxyHandlers := true })

/-- Handles the reply.  `none` uses a stream that is not there. -/
def handleData : Option (ClientProxyUnknown σ) :=
  u.stream.bind fun stream =>
    match u.tryHello stream with
    | (.ok (), u) => some u
    | (.error (.incompatible ..), u) =>
      (u.writeMessage msgEIncompatible
        [.int protocolMajorVersion, .int protocolMinorVersion]).map sendFailure
    | (.error .badClient, u) => (u.writeMessage msgEBad []).map sendFailure

/-- What the listener does when it is told of success or failure: it takes the proxy, or closes
the stream. -/
def handleUnknownClient : Option (UnknownProxy σ) × Option σ :=
  if u.ready then (u.proxy, u.stream) else (none, u.stream.map IStream.close)

/-! ### Runs -/

/-- The events that are handled. -/
inductive Event (σ : Type)
  /-- The stream has data.  This is its state then. -/
  | data (stream : σ)
  | writeError
  | streamDisconnected
  | timeout
  | proxyReady
  | proxyDisconnected

/-- Handles one event, if its handler is installed. -/
def step : Event σ → Option (ClientProxyUnknown σ)
  | .data stream =>
    if u.streamHandlers then handleData { u with stream := u.stream.map fun _ => stream } else none
  | .writeError => if u.streamHandlers then some u.sendFailure else none
  | .streamDisconnected => if u.streamHandlers then some u.sendFailure else none
  | .timeout => if u.timer then some u.sendFailure else none
  | .proxyReady => if u.proxyHandlers ∧ u.proxy.isSome then some u.sendSuccess else none
  | .proxyDisconnected => if u.proxyHandlers ∧ u.proxy.isSome then some u.sendFailure else none

/-- The runs of a client that connected. -/
def lts (σ : Type) [IStream σ] : LTS (ClientProxyUnknown σ) (Event σ) where
  init u := ∃ stream, u = create stream
  step := step

/-! ### Answers -/

/-- The client was told the message on the stream, and the connection is closed. -/
def Refused (u : ClientProxyUnknown σ) (stream : σ) (fmt : String) (args : List Value) : Prop :=
  let stream := IStream.write stream (message fmt args)
  u.stream = some stream ∧ u.proxy = none ∧ u.events.getLast? = some .failure ∧
    u.handleUnknownClient = (none, some (IStream.close stream))

/-- The client has a proxy of the class of its version, which owns the stream. -/
def Served (u : ClientProxyUnknown σ) (stream : σ) (proxyClass : ProxyClass) (name : Bytes) :
    Prop :=
  u.proxy = some (newProxy proxyClass name stream) ∧ u.stream = none ∧ u.proxyHandlers = true

/-- The reply on the stream is answered. -/
def Answers (stream : σ) : Prop :=
  ∃ u', u.step (.data stream) = some u' ∧
    match parseHello stream with
    | (none, rest) => Refused u' rest msgEBad []
    | (some hello, rest) =>
      match hello.proxyClass with
      | some proxyClass => Served u' rest proxyClass hello.name
      | none =>
        Refused u' rest msgEIncompatible [.int protocolMajorVersion, .int protocolMinorVersion]

/-- The reply has a valid version that there is no proxy for. -/
def Unsupported (stream : σ) : Prop :=
  ∃ hello ∈ (parseHello stream).1, hello.Valid ∧ hello.proxyClass = none

instance (stream : σ) : Decidable (Unsupported stream) :=
  inferInstanceAs (Decidable (∃ _ ∈ (parseHello stream).1, _))

variable {u} {u' : ClientProxyUnknown σ}

/-- Until the stream is moved its handlers may be installed, and afterwards they are not. -/
structure Inv (u : ClientProxyUnknown σ) : Prop where
  moves : u.moves ≤ 1
  handlers : u.streamHandlers = true → u.stream.isSome = true ∧ u.moves = 0 ∧ u.proxy = none
  moved : u.stream = none ∨ u.moves = 0

omit [IStream σ] in
theorem inv_sendFailure (h : Inv u) : Inv u.sendFailure := by
  refine ⟨h.moves, fun hhandlers => ?_, h.moved⟩
  have hkept : (if u.stream.isSome then false else u.streamHandlers) = true := hhandlers
  split_ifs at hkept with hstream
  exact absurd (h.handlers hkept).1 hstream

omit [IStream σ] in
theorem inv_sendSuccess (h : Inv u) : Inv u.sendSuccess := ⟨h.moves, h.handlers, h.moved⟩

theorem valid_of_proxyClass {hello : Hello} {proxyClass : ProxyClass}
    (h : hello.proxyClass = some proxyClass) : hello.Valid := by
  unfold Hello.proxyClass at h
  unfold Hello.Valid
  split_ifs at h with hmajor hminor hminor <;> omega

/-! ### The cases of a reply -/

section Cases

variable {stream rest : σ} {hello : Hello}

/-- A client that was told a message and is given up. -/
def refuse (u : ClientProxyUnknown σ) (rest : σ) (fmt : String) (args : List Value) :
    ClientProxyUnknown σ :=
  sendFailure { u with stream := some (IStream.write rest (message fmt args)) }

theorem refused_refuse (u : ClientProxyUnknown σ) (rest : σ) (fmt : String) (args : List Value) :
    Refused (u.refuse rest fmt args) rest fmt args :=
  ⟨rfl, rfl, by simp [refuse, sendFailure, removeTimer], rfl⟩

/-- The stream as the handler sees it. -/
theorem step_data (hinv : Inv u) (hu : u.streamHandlers = true) :
    u.step (.data stream) = handleData { u with stream := some stream } := by
  obtain ⟨old, hold⟩ := Option.isSome_iff_exists.1 (hinv.handlers hu).1
  simp [step, hu, hold]

theorem step_data_bad (hinv : Inv u) (hu : u.streamHandlers = true)
    (hreply : parseHello stream = (none, rest)) :
    u.step (.data stream) = some (u.refuse rest msgEBad []) := by
  rw [step_data hinv hu]
  simp [handleData, tryHello, hreply, writeMessage, refuse]

theorem step_data_invalid (hinv : Inv u) (hu : u.streamHandlers = true)
    (hreply : parseHello stream = (some hello, rest)) (hvalid : ¬hello.Valid) :
    u.step (.data stream) =
      some (u.refuse rest msgEIncompatible
        [.int protocolMajorVersion, .int protocolMinorVersion]) := by
  have hinvalid : hello.major ≤ 0 ∨ hello.minor < 0 := by
    unfold Hello.Valid at hvalid
    omega
  rw [step_data hinv hu]
  simp [handleData, tryHello, hreply, hinvalid, writeMessage, refuse]

/-- The stream is gone when the error message is written to it. -/
theorem step_data_unsupported (hinv : Inv u) (hu : u.streamHandlers = true)
    (hreply : parseHello stream = (some hello, rest)) (hvalid : hello.Valid)
    (hclass : hello.proxyClass = none) : u.step (.data stream) = none := by
  have hnot : ¬(hello.major ≤ 0 ∨ hello.minor < 0) := by
    unfold Hello.Valid at hvalid
    omega
  rw [step_data hinv hu]
  simp [handleData, tryHello, hreply, hnot, hclass, writeMessage, moveStream]

theorem step_data_supported (hinv : Inv u) (hu : u.streamHandlers = true)
    (hreply : parseHello stream = (some hello, rest)) {proxyClass : ProxyClass}
    (hclass : hello.proxyClass = some proxyClass) :
    u.step (.data stream) = some { u with
      stream := none
      moves := u.moves + 1
      streamHandlers := false
      proxy := some (newProxy proxyClass hello.name rest)
      proxyHandlers := true } := by
  have hvalid : hello.Valid := valid_of_proxyClass hclass
  have hnot : ¬(hello.major ≤ 0 ∨ hello.minor < 0) := by
    unfold Hello.Valid at hvalid
    omega
  rw [step_data hinv hu]
  simp [handleData, tryHello, hreply, hnot, hclass, moveStream, removeHandlers]

end Cases

/-! ### Every run -/

omit [IStream σ] in
theorem inv_create (stream : σ) : Inv (create stream) :=
  ⟨Nat.zero_le 1, fun _ => ⟨rfl, rfl, rfl⟩, .inr rfl⟩

theorem inv_refuse (hinv : Inv u) (hu : u.streamHandlers = true) (rest : σ) (fmt : String)
    (args : List Value) : Inv (u.refuse rest fmt args) := by
  refine inv_sendFailure ⟨hinv.moves, fun _ => ⟨rfl, (hinv.handlers hu).2⟩, .inr ?_⟩
  exact (hinv.handlers hu).2.1

theorem inv_data {stream : σ} (hinv : Inv u) (hst : u.step (.data stream) = some u') :
    Inv u' := by
  have hu : u.streamHandlers = true := by
    by_contra hu
    simp [step, hu] at hst
  rcases hreply : parseHello stream with ⟨reply, rest⟩
  cases reply with
  | none =>
    obtain rfl := Option.some.inj ((step_data_bad hinv hu hreply).symm.trans hst)
    exact inv_refuse hinv hu ..
  | some hello =>
    by_cases hvalid : hello.Valid
    · cases hclass : hello.proxyClass with
      | none => simp [step_data_unsupported hinv hu hreply hvalid hclass] at hst
      | some proxyClass =>
        obtain rfl := Option.some.inj ((step_data_supported hinv hu hreply hclass).symm.trans hst)
        have hmoves : u.moves = 0 := (hinv.handlers hu).2.1
        exact ⟨by simp [hmoves], fun h => absurd h Bool.false_ne_true, .inl rfl⟩
    · obtain rfl := Option.some.inj ((step_data_invalid hinv hu hreply hvalid).symm.trans hst)
      exact inv_refuse hinv hu ..

theorem Inv.step {e : Event σ} (hinv : Inv u) (hst : u.step e = some u') : Inv u' := by
  cases e with
  | data stream => exact inv_data hinv hst
  | writeError | streamDisconnected | timeout =>
    simp only [ClientProxyUnknown.step, Option.ite_none_right_eq_some, Option.some.injEq] at hst
    exact hst.2 ▸ inv_sendFailure hinv
  | proxyDisconnected =>
    simp only [ClientProxyUnknown.step, Option.ite_none_right_eq_some, Option.some.injEq] at hst
    exact hst.2 ▸ inv_sendFailure hinv
  | proxyReady =>
    simp only [ClientProxyUnknown.step, Option.ite_none_right_eq_some, Option.some.injEq] at hst
    exact hst.2 ▸ inv_sendSuccess hinv

theorem inv_of_reachable (hs : (lts σ).Reachable u) : Inv u := by
  refine hs.invariant ?_ fun u e u' hinv _ hst => hinv.step hst
  rintro _ ⟨stream, rfl⟩
  exact inv_create stream

/-- A reply is answered unless it has a valid version without a proxy. -/
theorem answers_iff {stream : σ} (hinv : Inv u) (hu : u.streamHandlers = true) :
    u.Answers stream ↔ ¬Unsupported stream := by
  rcases hreply : parseHello stream with ⟨reply, rest⟩
  unfold Answers Unsupported
  rw [hreply]
  cases reply with
  | none =>
    simp only [Option.mem_def, reduceCtorEq, false_and, exists_false, not_false_eq_true, iff_true]
    exact ⟨_, step_data_bad hinv hu hreply, refused_refuse ..⟩
  | some hello =>
    simp only [Option.mem_def, Option.some.injEq, exists_eq_left']
    cases hclass : hello.proxyClass with
    | some proxyClass =>
      simp only [reduceCtorEq, and_false, not_false_eq_true, iff_true]
      exact ⟨_, step_data_supported hinv hu hreply hclass, rfl, rfl, rfl⟩
    | none =>
      by_cases hvalid : hello.Valid
      · simp [step_data_unsupported hinv hu hreply hvalid hclass, hvalid]
      · simp only [hvalid, false_and, not_false_eq_true, iff_true]
        exact ⟨_, step_data_invalid hinv hu hreply hvalid, refused_refuse ..⟩

/-- In every run the stream is moved at most once, and each reply that is handled is answered
exactly if it has no valid version without a proxy. -/
theorem answers_iff_of_reachable (hs : (lts σ).Reachable u) :
    u.moves ≤ 1 ∧
      (u.streamHandlers = true → ∀ stream, u.Answers stream ↔ ¬Unsupported stream) :=
  have hinv : Inv u := inv_of_reachable hs
  ⟨hinv.moves, fun hu _ => answers_iff hinv hu⟩

/-! ### Two replies -/

/-- A stream in memory. -/
structure Wire where
  input : Bytes
  output : Bytes := []
  closed : Bool := false

instance : IStream Wire where
  read w n := (w.input.take n, { w with input := w.input.drop n })
  getSize w := w.input.length
  write w bytes := { w with output := w.output ++ bytes }
  close w := { w with closed := true }

/-- The reply of a client named `p` with the given version. -/
def helloBackOf (major minor : ℕ) : Wire :=
  { input := message msgHelloBack [.int major, .int minor, .string [112]] }

/-- A client with version 1.6 is answered. -/
theorem answers_helloBack :
    (create (helloBackOf 1 6)).moves ≤ 1 ∧ (create (helloBackOf 1 6)).Answers (helloBackOf 1 6) :=
  have hreach : (lts Wire).Reachable (create (helloBackOf 1 6)) := .init ⟨_, rfl⟩
  ⟨(answers_iff_of_reachable hreach).1,
    ((answers_iff_of_reachable hreach).2 rfl _).2 (by decide +kernel)⟩

/-- A client with version 1.8 is not. -/
theorem not_answers_helloBack :
    ¬∀ u, (lts Wire).Reachable u → u.streamHandlers = true → ∀ stream, u.Answers stream := by
  intro h
  have hanswer := h _ (.init ⟨helloBackOf 1 8, rfl⟩) rfl (helloBackOf 1 8)
  refine (answers_iff (inv_create _) rfl).1 hanswer ?_
  decide +kernel

end ClientProxyUnknown

end InputLeap
