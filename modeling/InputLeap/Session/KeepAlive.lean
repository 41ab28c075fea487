import InputLeap.Client.OptionLists
import InputLeap.LTS.InFlight
import InputLeap.Session.Basic
import Mathlib.Algebra.Order.Field.Rat
import Mathlib.Tactic.Linarith

/-!
# Keep-alives

The proxy of the server sends a keep-alive again and again, and one with each chunk of a clipboard;
the client echoes them.  Each end has an alarm that it sets again when it hears of the other one:
the client when it gets a keep-alive or options, the server when it has handled what there was to
read.  An end whose alarm goes off takes the other one for dead.  The options that the server sends
may change the rate at both ends.

Here a session runs in time.  Times are in seconds, and a timer is given by when it is due; it may
be handled later, as other events come first.

## Main definitions

* `KeepAlive.ServerTimers`, `KeepAlive.ClientTimers` : the timers of the two ends.
* `TimedSession` : a session, its timers, and when its messages were sent.
* `TimedSession.step` : one event, or the passing of time.
* `KeepAlive.Timing` : bounds on how long messages and timers take.
* `TimedSession.Admits` : a run keeps these bounds.
* `TimedSession.Prompt` : alarms are not handled too late.
-/

namespace InputLeap

open Session (Report Stage ServerAct ClientAct)

namespace KeepAlive

/-- `kKeepAliveRate`. -/
def keepAliveRate : ℚ := 3

/-- `kKeepAlivesUntilDeath`, and the same as `kHeartBeatsUntilDeath`. -/
def keepAlivesUntilDeath : ℚ := 3

/-- The rates in a list of options, in order. -/
def heartbeats (options : List UInt32) : List ℚ :=
  ((pairs (options.map UInt32.toNat)).filter fun option =>
    option.1 = OptionID.heartbeat.code).map fun option => option.2 / 1000

/-! ### The server -/

/-- A timer that is not deleted when it is reported. -/
structure Periodic where
  period : ℚ
  due : ℚ
  deriving DecidableEq

/-- The timers of `ClientProxy1_6`. -/
structure ServerTimers where
  keepAliveRate : ℚ := KeepAlive.keepAliveRate
  heartbeatAlarm : ℚ := KeepAlive.keepAliveRate * keepAlivesUntilDeath
  keepAliveTimer : Option Periodic := none
  heartbeatTimer : Option ℚ := none
  /-- Alarms that were replaced while they were set; nobody deletes them. -/
  strays : List ℚ := []

namespace ServerTimers

variable (p : ServerTimers) (now : ℚ)

/-- The timer of keep-alives is not set when this is called. -/
def addHeartbeatTimer : ServerTimers :=
  { p with
    keepAliveTimer :=
      if 0 < p.keepAliveRate then some ⟨p.keepAliveRate, now + p.keepAliveRate⟩
      else p.keepAliveTimer
    heartbeatTimer :=
      if 0 < p.heartbeatAlarm then some (now + p.heartbeatAlarm) else p.heartbeatTimer
    strays := if 0 < p.heartbeatAlarm then p.heartbeatTimer.toList ++ p.strays else p.strays }

def removeHeartbeatTimer : ServerTimers :=
  { p with
    keepAliveTimer := none
    heartbeatTimer := none }

/-- Resets the alarm but not the timer of keep-alives. -/
def resetHeartbeatTimer : ServerTimers :=
  { p with
    heartbeatTimer := if 0 < p.heartbeatAlarm then some (now + p.heartbeatAlarm) else none }

def setHeartbeatRate (rate alarm : ℚ) : ServerTimers :=
  { p with
    keepAliveRate := rate
    heartbeatAlarm := alarm }

def resetOptions : ServerTimers :=
  ((p.setHeartbeatRate KeepAlive.keepAliveRate
    (KeepAlive.keepAliveRate * keepAlivesUntilDeath)).removeHeartbeatTimer).addHeartbeatTimer now

/-- What `setOptions` does about one heartbeat option. -/
def setHeartbeat (value : ℚ) : ServerTimers :=
  let rate := if value ≤ 0 then -1 else value
  ((p.setHeartbeatRate rate (rate * keepAlivesUntilDeath)).removeHeartbeatTimer).addHeartbeatTimer
    now

def setOptions (options : List UInt32) : ServerTimers :=
  (heartbeats options).foldl (fun p value => p.setHeartbeat now value) p

/-- What a call on the proxy does to its timers. -/
def calls : ClientConnection.Call → ServerTimers
  | .resetOptions => p.resetOptions now
  | .setOptions options => p.setOptions now options
  | _ => p

/-- The timer of keep-alives is reported, and counts again from now on. -/
def fire : ServerTimers :=
  { p with keepAliveTimer := p.keepAliveTimer.map fun t => { t with due := now + t.period } }

/-- What the parsers do to the timers.  The first report ends the handshake. -/
def hears (stage : Stage) : ServerProxy.Call → ServerTimers
  | .sendInfo .. => if stage = .unknown then p.addHeartbeatTimer now else p
  | .keepAlive => if stage = .unknown then p else p.resetHeartbeatTimer now
  | _ => p

end ServerTimers

/-! ### The client -/

/-- The timer of `ServerProxy`. -/
structure ClientTimers where
  keepAliveAlarm : ℚ
  keepAliveAlarmTimer : Option ℚ

namespace ClientTimers

variable (p : ClientTimers) (now : ℚ)

def resetKeepAliveAlarm : ClientTimers :=
  { p with
    keepAliveAlarmTimer :=
      if 0 < p.keepAliveAlarm then some (now + p.keepAliveAlarm) else none }

def setKeepAliveRate (rate : ℚ) : ClientTimers :=
  { p with keepAliveAlarm := rate * keepAlivesUntilDeath }.resetKeepAliveAlarm now

def setOptions (options : List UInt32) : ClientTimers :=
  (heartbeats options).foldl (fun p rate => p.setKeepAliveRate now rate) p

/-- What the parsers do to the timer.  The proxy is destroyed when the server closes. -/
def hears : ClientConnection.Call → ClientTimers
  | .keepAlive => p.resetKeepAliveAlarm now
  | .resetOptions => p.setKeepAliveRate now KeepAlive.keepAliveRate
  | .setOptions options => p.setOptions now options
  | .close _ => p.setKeepAliveRate now (-1)
  | _ => p

end ClientTimers

end KeepAlive

open KeepAlive (ServerTimers ClientTimers)

/-- A session in time. -/
structure TimedSession where
  session : Session
  now : ℚ := 0
  server : ServerTimers := {}
  client : ClientTimers
  /-- When the calls of the server were made. -/
  downAt : List ℚ
  /-- When the calls of the client were made. -/
  upAt : List ℚ := []
  /-- When `CLIENT_PROXY_READY` was posted. -/
  readyAt : ℚ := 0
  /-- The server has taken the client for dead. -/
  flatlined : Bool := false
  /-- The client has taken the server for dead. -/
  unresponsive : Bool := false

namespace TimedSession

/-- What can happen in time. -/
inductive Event
  | pass (d : ℚ)
  | server (act : ServerAct)
  /-- `FILE_KEEPALIVE`, which comes with each chunk of a clipboard for the client. -/
  | fileKeepAlive
  | client (act : ClientAct)
  /-- `ClientProxy1_6::handle_data` handles the next messages. -/
  | serverReads (n : ℕ)
  | clientHears
  /-- `handle_flatline`. -/
  | flatline
  /-- `handle_keep_alive_alarm`. -/
  | alarm

variable (s : TimedSession)

/-- The session goes on; what is sent is sent now. -/
def advance (t : Session) : TimedSession :=
  { s with
    session := t
    downAt := s.downAt ++ List.replicate (t.down.length - s.session.down.length) s.now
    upAt := s.upAt ++ List.replicate (t.up.length - s.session.up.length) s.now }

/-- The server may act: it keeps the client, and the timer of keep-alives is due for one. -/
def ServerMay : ServerAct → Prop
  | .keepAlive => s.flatlined = false ∧ ∃ t ∈ s.server.keepAliveTimer, t.due ≤ s.now
  | _ => s.flatlined = false

instance : ∀ act, Decidable (s.ServerMay act)
  | .keepAlive => inferInstanceAs (Decidable (_ ∧ _))
  | .refuse _ | .accept .. | .relay _ | .close => inferInstanceAs (Decidable (_ = _))

/-- The timers when the server has acted, with the calls that it made. -/
def serverTimers (act : ServerAct) (calls : List ClientConnection.Call) : ServerTimers :=
  match act with
  | .keepAlive => s.server.fire s.now
  | _ => calls.foldl (fun p call => p.calls s.now call) s.server

/-- The proxy handles one message. -/
def serverHears : Option TimedSession :=
  (s.session.up[s.session.read]?).bind fun call =>
    (s.session.step .serverHears).map fun t =>
      { s.advance t with
        server := s.server.hears s.now s.session.ends.stage call
        readyAt := if s.session.ends.stage = .unknown then s.now else s.readyAt }

/-- The loop of `handle_data`, and what is behind it. -/
def serverReads : ℕ → TimedSession → Option TimedSession
  | 0, s => some { s with server := s.server.resetHeartbeatTimer s.now }
  | n + 1, s => s.serverHears.bind (serverReads n)

/-- One of the alarms of the proxy is due. -/
def FlatlineDue : Prop :=
  ∃ due ∈ s.server.heartbeatTimer.toList ++ s.server.strays, due ≤ s.now

instance : Decidable s.FlatlineDue := inferInstanceAs (Decidable (∃ _ ∈ _, _))

/-- One step. -/
def step (s : TimedSession) : Event → Option TimedSession
  | .pass d => if 0 ≤ d then some { s with now := s.now + d } else none
  | .server act =>
    if s.ServerMay act then
      (s.session.step (.server act)).map fun t =>
        { s.advance t with
          server := s.serverTimers act (t.down.drop s.session.down.length) }
    else none
  | .fileKeepAlive =>
    -- the timer of keep-alives counts on
    if s.flatlined then none else (s.session.step (.server .keepAlive)).map s.advance
  | .client act => (s.session.step (.client act)).map s.advance
  | .serverReads n => if s.flatlined then none else serverReads n s
  | .clientHears =>
    (s.session.down[s.session.heard]?).bind fun call =>
      (s.session.step .clientHears).map fun t =>
        { s.advance t with client := s.client.hears s.now call }
  | .flatline =>
    if s.flatlined = false ∧ s.FlatlineDue then
      some { s with
        flatlined := true
        server := s.server.removeHeartbeatTimer }
    else none
  | .alarm =>
    if ∃ due ∈ s.client.keepAliveAlarmTimer, due ≤ s.now then
      some { s with
        unresponsive := true
        client := s.client.setKeepAliveRate s.now (-1)
        session := { s.session with ends := { s.session.ends with disconnected := true } } }
    else none

/-- The proxy of the server has just been created.  That of the client was created at the time
`since`, with the hello. -/
def start (screen : Report) (since : ℚ) : TimedSession where
  session := Session.start screen
  client :=
    (ClientTimers.mk 0 none).setKeepAliveRate since KeepAlive.keepAliveRate
  downAt := [0]

end TimedSession

namespace KeepAlive

/-- A message is handled after `latency` at the latest, and a timer is handled at most `lag` after
it is due; both are small enough for the default rate. -/
structure Timing where
  latency : ℚ
  lag : ℚ
  latency_nonneg : 0 ≤ latency
  lag_nonneg : 0 ≤ lag
  roundTrip_lt : lag + 2 * latency < 2 * keepAliveRate
  handshake_lt : lag + 4 * latency < keepAliveRate * keepAlivesUntilDeath

/-- The rates in a list of options are off, or slow enough. -/
def Timing.Allows (τ : Timing) (options : List UInt32) : Prop :=
  ∀ rate ∈ heartbeats options, rate = 0 ∨ τ.lag + 2 * τ.latency < 2 * rate

instance (τ : Timing) (options : List UInt32) : Decidable (τ.Allows options) :=
  inferInstanceAs (Decidable (∀ _ ∈ _, _))

end KeepAlive

open KeepAlive (Timing)

namespace TimedSession

/-- The runs of a session in time. -/
def lts (τ : Timing) : LTS TimedSession Event where
  init s := ∃ (screen : Report) (since : ℚ),
    screen.Valid ∧ -τ.latency ≤ since ∧ since ≤ 0 ∧ s = start screen since
  step := step

/-- Time may pass to `now`: no message and no timer of keep-alives is late. -/
structure InTime (τ : Timing) (s : TimedSession) (now : ℚ) : Prop where
  down : s.session.ends.disconnected = false →
    ∀ t ∈ s.downAt.drop s.session.heard, now ≤ t + τ.latency
  up : s.flatlined = false → ∀ t ∈ s.upAt.drop s.session.read, now ≤ t + τ.latency
  timer : s.flatlined = false → ∀ t ∈ s.server.keepAliveTimer, now ≤ t.due + τ.lag
  ready : s.flatlined = false → s.session.ends.stage = .ready → now ≤ s.readyAt + τ.lag

instance (τ : Timing) (s : TimedSession) (now : ℚ) : Decidable (s.InTime τ now) :=
  decidable_of_iff
    ((s.session.ends.disconnected = false →
        ∀ t ∈ s.downAt.drop s.session.heard, now ≤ t + τ.latency) ∧
      (s.flatlined = false → ∀ t ∈ s.upAt.drop s.session.read, now ≤ t + τ.latency) ∧
      (s.flatlined = false → ∀ t ∈ s.server.keepAliveTimer, now ≤ t.due + τ.lag) ∧
      (s.flatlined = false → s.session.ends.stage = .ready → now ≤ s.readyAt + τ.lag))
    ⟨fun ⟨h₁, h₂, h₃, h₄⟩ => ⟨h₁, h₂, h₃, h₄⟩, fun ⟨h₁, h₂, h₃, h₄⟩ => ⟨h₁, h₂, h₃, h₄⟩⟩

/-- The options that the server sends with an action. -/
def sentOptions : ServerAct → List UInt32
  | .accept options _ => options
  | .relay (.setOptions options) => options
  | _ => []

/-- Messages and timers are in time, and the rates are slow enough; `handle_data` is not called for
nothing before the first report. -/
def Admits (τ : Timing) (s : TimedSession) : Event → Prop
  | .pass d => s.InTime τ (s.now + d)
  | .server act => Session.Admits s.session (.server act) ∧ τ.Allows (sentOptions act)
  | .client act => Session.Admits s.session (.client act)
  | .serverReads n => n = 0 → s.session.ends.stage ≠ .unknown
  | _ => True

instance (τ : Timing) (s : TimedSession) : ∀ ev, Decidable (Admits τ s ev)
  | .pass d => inferInstanceAs (Decidable (s.InTime τ (s.now + d)))
  | .server _ => inferInstanceAs (Decidable (_ ∧ _))
  | .client act => inferInstanceAs (Decidable (Session.Admits s.session (.client act)))
  | .serverReads _ => inferInstanceAs (Decidable (_ → _))
  | .fileKeepAlive | .clientHears | .flatline | .alarm => .isTrue trivial

/-- Time does not pass when an alarm has been due for longer than the lag. -/
def Prompt (τ : Timing) (s : TimedSession) : Event → Prop
  | .pass d =>
    (s.flatlined = false → ∀ due ∈ s.server.heartbeatTimer, s.now + d ≤ due + τ.lag) ∧
      ∀ due ∈ s.client.keepAliveAlarmTimer, s.now + d ≤ due + τ.lag
  | _ => True

instance (τ : Timing) (s : TimedSession) : ∀ ev, Decidable (Prompt τ s ev)
  | .pass _ => inferInstanceAs (Decidable (_ ∧ _))
  | .server _ | .fileKeepAlive | .client _ | .serverReads _ | .clientHears | .flatline | .alarm =>
    .isTrue trivial

end TimedSession

end InputLeap
