import InputLeap.Session.KeepAlive
import InputLeap.Session.Acks

/-!
# Keep-alives give no false alarm

As long as messages and timers take no longer than the bounds that the rate allows, each alarm is
set again before it goes off: at any time something is on its way that will set it in time.

## Main definitions

* `KeepAlive.lastRate` : the rate that the calls of the server agree on.
* `TimedSession.Inv` : the timers of the two ends follow the rate, and the client has hope.
* `TimedSession.ServerHope`, `TimedSession.ClientHope` : what is on its way to set an alarm again.

## Main results

* `TimedSession.no_false_alarm` : no end takes the other one for dead, and the session runs as one
  without timers.
-/

namespace InputLeap

open Session (Report Stage ServerAct ClientAct)

namespace KeepAlive

open ClientConnection (Call)

/-- The rate that a call sets. -/
def rateSet : Call → Option ℚ
  | .resetOptions => some keepAliveRate
  | .setOptions options => (heartbeats options).getLast?
  | _ => none

/-- The rate behind the calls. -/
def lastRate (calls : List Call) : ℚ := ((calls.filterMap rateSet).getLast?).getD keepAliveRate

/-- The call sets the alarm of the client again or ends it. -/
def beats : Call → Bool
  | .keepAlive | .close _ => true
  | call => (rateSet call).isSome

/-- A call that sets a rate sets the alarm. -/
theorem beats_of_rateSet {call : Call} {rate : ℚ} (h : rateSet call = some rate) :
    beats call = true := by
  have hsome : (rateSet call).isSome = true := h ▸ rfl
  cases call with
  | keepAlive | close => rfl
  | _ => exact hsome

theorem lastRate_append (calls later : List Call) :
    lastRate (calls ++ later) = ((later.filterMap rateSet).getLast?).getD (lastRate calls) := by
  rw [lastRate, List.filterMap_append, List.getLast?_append]
  cases (later.filterMap rateSet).getLast? <;> rfl

/-- Calls that set no rate change none. -/
theorem lastRate_append_of_none {calls later : List Call}
    (h : ∀ call ∈ later, rateSet call = none) :
    lastRate (calls ++ later) = lastRate calls := by
  rw [lastRate_append, List.filterMap_eq_nil_iff.2 h]
  rfl

/-! ### The timers of the server -/

namespace ServerTimers

variable {p : ServerTimers} {now rate : ℚ}

/-- The timers that were just set for a rate, with alarms that nobody deletes. -/
def settled (strays : List ℚ) (now rate : ℚ) : ServerTimers :=
  if 0 < rate then
    ⟨rate, rate * keepAlivesUntilDeath, some ⟨rate, now + rate⟩,
      some (now + rate * keepAlivesUntilDeath), strays⟩
  else ⟨-1, -1 * keepAlivesUntilDeath, none, none, strays⟩

/-- The proxy uses the rate. -/
structure Uses (p : ServerTimers) (rate : ℚ) : Prop where
  rate : p.keepAliveRate = if 0 < rate then rate else -1
  alarm : p.heartbeatAlarm = p.keepAliveRate * keepAlivesUntilDeath

theorem uses_settled (strays : List ℚ) (now rate : ℚ) : (settled strays now rate).Uses rate := by
  unfold settled
  split_ifs with h
  · exact ⟨(if_pos h).symm, rfl⟩
  · exact ⟨(if_neg h).symm, rfl⟩

theorem setHeartbeat_eq (p : ServerTimers) (now value : ℚ) :
    p.setHeartbeat now value = settled p.strays now value := by
  unfold setHeartbeat settled
  by_cases h : 0 < value
  · have hle : ¬value ≤ 0 := not_le.2 h
    have halarm : 0 < value * keepAlivesUntilDeath := mul_pos h (by norm_num [keepAlivesUntilDeath])
    simp [hle, h, halarm, setHeartbeatRate, removeHeartbeatTimer, addHeartbeatTimer]
  · have hle : value ≤ 0 := not_lt.1 h
    have halarm : ¬(0 : ℚ) < -1 * keepAlivesUntilDeath := by norm_num [keepAlivesUntilDeath]
    simp [hle, h, keepAlivesUntilDeath, setHeartbeatRate, removeHeartbeatTimer, addHeartbeatTimer]

theorem resetOptions_eq (p : ServerTimers) (now : ℚ) :
    p.resetOptions now = settled p.strays now KeepAlive.keepAliveRate := by
  rw [← setHeartbeat_eq, setHeartbeat, if_neg (by norm_num [KeepAlive.keepAliveRate])]
  rfl

theorem strays_settled (strays : List ℚ) (now rate : ℚ) :
    (settled strays now rate).strays = strays := by
  unfold settled
  split_ifs <;> rfl

/-- Only the last rate counts. -/
theorem foldl_setHeartbeat (p : ServerTimers) (now : ℚ) (rates : List ℚ) :
    rates.foldl (fun p value => p.setHeartbeat now value) p =
      rates.getLast?.elim p (settled p.strays now) := by
  induction rates using List.reverseRecOn with
  | nil => rfl
  | append_singleton rates rate ih =>
    have hstrays : (rates.getLast?.elim p (settled p.strays now)).strays = p.strays := by
      cases rates.getLast? with
      | none => rfl
      | some r => exact strays_settled _ _ _
    rw [List.foldl_append, ih, List.foldl_cons, List.foldl_nil, setHeartbeat_eq, hstrays,
      List.getLast?_append, List.getLast?_singleton]
    rfl

theorem calls_eq (p : ServerTimers) (now : ℚ) (call : Call) :
    p.calls now call = (rateSet call).elim p (settled p.strays now) := by
  cases call with
  | resetOptions => exact p.resetOptions_eq now
  | setOptions options => exact p.foldl_setHeartbeat now (heartbeats options)
  | _ => rfl

/-- The timers behind several calls. -/
theorem foldl_calls (p : ServerTimers) (now : ℚ) (calls : List Call) :
    calls.foldl (fun p call => p.calls now call) p =
      ((calls.filterMap rateSet).getLast?).elim p (settled p.strays now) := by
  induction calls using List.reverseRecOn with
  | nil => rfl
  | append_singleton calls call ih =>
    have hstrays : (((calls.filterMap rateSet).getLast?).elim p (settled p.strays now)).strays =
        p.strays := by
      cases (calls.filterMap rateSet).getLast? with
      | none => rfl
      | some r => exact strays_settled _ _ _
    rw [List.foldl_append, ih, List.foldl_cons, List.foldl_nil, calls_eq, hstrays,
      List.filterMap_append, List.getLast?_append]
    cases h : rateSet call <;> simp [h]

/-- Behind the first report, reports do nothing to the timers. -/
theorem hears_sendInfo {stage : Stage} (hstage : stage ≠ .unknown) (p : ServerTimers) (now : ℚ)
    (x y w h mx my : Int32) : p.hears now stage (.sendInfo x y w h mx my) = p :=
  if_neg hstage

theorem hears_keepAlive {stage : Stage} (hstage : stage ≠ .unknown) (p : ServerTimers) (now : ℚ) :
    p.hears now stage .keepAlive = p.resetHeartbeatTimer now :=
  if_neg hstage

/-- The timers follow the rate, and they are not set before the first report. -/
structure Runs (p : ServerTimers) (stage : Stage) (rate now : ℚ) : Prop where
  uses : p.Uses rate
  strays : p.strays = []
  unset : stage = .unknown → p.keepAliveTimer = none ∧ p.heartbeatTimer = none
  timer : stage ≠ .unknown → 0 < rate →
    ∃ t, p.keepAliveTimer = some t ∧ t.period = rate ∧ t.due ≤ now + rate
  off : ¬0 < rate → p.keepAliveTimer = none

variable {stage stage' : Stage}

theorem runs_settled (hstage : stage ≠ .unknown) (now rate : ℚ) :
    (settled [] now rate).Runs stage rate now where
  uses := uses_settled _ _ _
  strays := strays_settled _ _ _
  unset h := absurd h hstage
  timer _ hpos := by
    rw [settled, if_pos hpos]
    exact ⟨_, rfl, rfl, le_rfl⟩
  off hoff := by rw [settled, if_neg hoff]

namespace Runs

theorem later (h : p.Runs stage rate now) {now' : ℚ} (hle : now ≤ now') :
    p.Runs stage rate now' where
  uses := h.uses
  strays := h.strays
  unset := h.unset
  timer hstage hpos := by
    obtain ⟨t, ht, hperiod, hdue⟩ := h.timer hstage hpos
    exact ⟨t, ht, hperiod, hdue.trans (by linarith)⟩
  off := h.off

theorem of_known (h : p.Runs stage rate now) (hstage : stage ≠ .unknown)
    (hstage' : stage' ≠ .unknown) : p.Runs stage' rate now where
  uses := h.uses
  strays := h.strays
  unset hunknown := absurd hunknown hstage'
  timer _ := h.timer hstage
  off := h.off

theorem fire (h : p.Runs stage rate now) (hstage : stage ≠ .unknown) :
    (p.fire now).Runs stage rate now where
  uses := ⟨h.uses.rate, h.uses.alarm⟩
  strays := h.strays
  unset hunknown := absurd hunknown hstage
  timer _ hpos := by
    obtain ⟨t, ht, hperiod, -⟩ := h.timer hstage hpos
    refine ⟨{ t with due := now + t.period }, ?_, hperiod, ?_⟩
    · rw [ServerTimers.fire, ht]
      rfl
    · exact (congrArg (now + ·) hperiod).le
  off hoff := by rw [ServerTimers.fire, h.off hoff, Option.map_none]

/-- The first report sets the timers. -/
theorem add (h : p.Runs .unknown rate now) (hstage' : stage' ≠ .unknown) :
    (p.addHeartbeatTimer now).Runs stage' rate now where
  uses := ⟨h.uses.rate, h.uses.alarm⟩
  strays := by
    rw [addHeartbeatTimer, (h.unset rfl).2, h.strays]
    simp
  unset hunknown := absurd hunknown hstage'
  timer _ hpos := by
    have hrate : p.keepAliveRate = rate := h.uses.rate.trans (if_pos hpos)
    rw [addHeartbeatTimer, hrate, if_pos hpos]
    exact ⟨_, rfl, rfl, le_rfl⟩
  off hoff := by
    have hrate : ¬0 < p.keepAliveRate := by
      rw [h.uses.rate, if_neg hoff]
      norm_num
    rw [addHeartbeatTimer, if_neg hrate]
    exact h.off hoff

/-- The alarm may be set again behind the first report. -/
theorem reset (h : p.Runs stage rate now) (hstage : stage ≠ .unknown) :
    (p.resetHeartbeatTimer now).Runs stage rate now where
  uses := ⟨h.uses.rate, h.uses.alarm⟩
  strays := h.strays
  unset hunknown := absurd hunknown hstage
  timer := h.timer
  off := h.off

end Runs

end ServerTimers

/-! ### The timer of the client -/

namespace ClientTimers

variable {p : ClientTimers} {now rate : ℚ}

/-- The timer that was just set for a rate. -/
def settled (now rate : ℚ) : ClientTimers where
  keepAliveAlarm := rate * keepAlivesUntilDeath
  keepAliveAlarmTimer := if 0 < rate then some (now + rate * keepAlivesUntilDeath) else none

theorem setKeepAliveRate_eq (p : ClientTimers) (now rate : ℚ) :
    p.setKeepAliveRate now rate = settled now rate := by
  have hiff : 0 < rate * keepAlivesUntilDeath ↔ 0 < rate :=
    mul_pos_iff_of_pos_right (by norm_num [keepAlivesUntilDeath])
  simp [setKeepAliveRate, resetKeepAliveAlarm, settled, hiff]

theorem resetKeepAliveAlarm_eq (h : p.keepAliveAlarm = rate * keepAlivesUntilDeath) :
    p.resetKeepAliveAlarm now = settled now rate := by
  have hiff : 0 < rate * keepAlivesUntilDeath ↔ 0 < rate :=
    mul_pos_iff_of_pos_right (by norm_num [keepAlivesUntilDeath])
  simp [resetKeepAliveAlarm, settled, h, hiff]

theorem foldl_setKeepAliveRate (p : ClientTimers) (now : ℚ) (rates : List ℚ) :
    rates.foldl (fun p rate => p.setKeepAliveRate now rate) p =
      rates.getLast?.elim p (settled now) := by
  induction rates using List.reverseRecOn with
  | nil => rfl
  | append_singleton rates rate ih =>
    rw [List.foldl_append, ih, List.foldl_cons, List.foldl_nil, setKeepAliveRate_eq,
      List.getLast?_append, List.getLast?_singleton]
    rfl

/-- A call that sets a rate sets the timer. -/
theorem hears_of_rateSet {call : Call} (h : rateSet call = some rate) :
    p.hears now call = settled now rate := by
  cases call with
  | resetOptions =>
    cases h
    exact p.setKeepAliveRate_eq now _
  | setOptions options =>
    have hfold := p.foldl_setKeepAliveRate now (heartbeats options)
    rw [show (heartbeats options).getLast? = some rate from h] at hfold
    exact hfold
  | _ => cases h

/-- A call that is no beat leaves the timer alone. -/
theorem hears_of_not_beats {call : Call} (h : beats call = false) : p.hears now call = p := by
  cases call with
  | setOptions options =>
    have hnone : (heartbeats options).getLast? = none := Option.not_isSome_iff_eq_none.1 (by
      rw [show (heartbeats options).getLast?.isSome = false from h]
      exact Bool.false_ne_true)
    have hfold := p.foldl_setKeepAliveRate now (heartbeats options)
    rw [hnone] at hfold
    exact hfold
  | keepAlive | close | resetOptions => cases h
  | _ => rfl

end ClientTimers

/-- No rate, or one that is slow enough for the bounds. -/
def Timing.Slow (τ : Timing) (rate : ℚ) : Prop := rate = 0 ∨ τ.lag + 2 * τ.latency < 2 * rate

theorem Timing.slow_lastRate {τ : Timing} {calls : List Call}
    (h : ∀ rate ∈ calls.filterMap rateSet, τ.Slow rate) : τ.Slow (lastRate calls) := by
  rw [lastRate]
  cases hlast : (calls.filterMap rateSet).getLast? with
  | none => exact .inr τ.roundTrip_lt
  | some rate => exact h rate (List.mem_of_getLast? hlast)

/-- A rate in use is slow enough. -/
theorem Timing.Slow.lt {τ : Timing} {rate : ℚ} (h : τ.Slow rate) (hpos : 0 < rate) :
    τ.lag + 2 * τ.latency < 2 * rate := by
  rcases h with rfl | h
  · exact absurd hpos (lt_irrefl 0)
  · exact h

end KeepAlive

open KeepAlive (Timing ServerTimers ClientTimers lastRate rateSet beats keepAlivesUntilDeath)

namespace TimedSession

open ClientConnection (Call)

/-! ### What holds throughout -/

/-- Times are noted for all messages, and none is in the future. -/
structure Clocked (s : TimedSession) : Prop where
  downLen : s.session.down.length = s.downAt.length
  upLen : s.session.up.length = s.upAt.length
  downPast : ∀ t ∈ s.downAt, t ≤ s.now
  upPast : ∀ t ∈ s.upAt, t ≤ s.now
  readyPast : s.readyAt ≤ s.now

/-- Something is on its way that sets the alarm of the server again before the time `due`: a message
of the client, a keep-alive that it will echo, or the next keep-alive. -/
def ServerHope (τ : Timing) (s : TimedSession) (due : ℚ) : Prop :=
  (∃ call t, InFlight s.session.up s.upAt s.session.read call t ∧ t + τ.latency < due) ∨
  (∃ t, InFlight s.session.down s.downAt s.session.heard .keepAlive t ∧
    t + 2 * τ.latency < due) ∨
  ∃ t ∈ s.server.keepAliveTimer, t.due + τ.lag + 2 * τ.latency < due

/-- Something is on its way that sets the alarm of the client again before the time `due`: a beat of
the server, the next keep-alive, or what is left of the handshake. -/
def ClientHope (τ : Timing) (s : TimedSession) (due : ℚ) : Prop :=
  (∃ call t, beats call = true ∧ InFlight s.session.down s.downAt s.session.heard call t ∧
    t + τ.latency < due) ∨
  (∃ t ∈ s.server.keepAliveTimer, t.due + τ.lag + τ.latency < due) ∨
  (s.session.ends.stage = .ready ∧ s.readyAt + τ.lag + τ.latency < due) ∨
  s.session.ends.stage = .unknown ∧
    ((∃ call t, InFlight s.session.up s.upAt s.session.read call t ∧
      t + 2 * τ.latency + τ.lag < due) ∨
    ∃ t, InFlight s.session.down s.downAt s.session.heard .queryInfo t ∧
      t + 3 * τ.latency + τ.lag < due)

/-- What holds in every state of a run, but for the alarm of the server. -/
structure Inv (τ : Timing) (s : TimedSession) : Prop where
  session : Session.lts.ReachableVia Session.Admits s.session
  clocked : s.Clocked
  inTime : s.InTime τ s.now
  slow : ∀ rate ∈ s.session.down.filterMap rateSet, τ.Slow rate
  unknown : s.session.ends.stage = .unknown → ∀ call ∈ s.session.down, beats call = false
  ready : s.session.ends.stage = .ready → s.session.down.filterMap rateSet = []
  server : s.flatlined = false →
    s.server.Runs s.session.ends.stage (lastRate s.session.down) s.now
  client : s.session.ends.disconnected = false → s.client.keepAliveAlarm =
    lastRate (s.session.down.take s.session.heard) * keepAlivesUntilDeath
  hope : s.session.ends.disconnected = false →
    ∀ due ∈ s.client.keepAliveAlarmTimer, s.ClientHope τ due
  gone : s.session.ends.disconnected = true → s.client.keepAliveAlarmTimer = none
  responsive : s.unresponsive = false
  flat : s.flatlined = true → s.session.ends.disconnected = true

/-- The alarm of the server has hope. -/
def Hopeful (τ : Timing) (s : TimedSession) : Prop :=
  s.session.ends.disconnected = false → ∀ due ∈ s.server.heartbeatTimer, s.ServerHope τ due

variable {τ : Timing} {s s' : TimedSession} {t : Session} {due : ℚ}

/-! ### Sending -/

theorem advance_downAt {calls : List Call} (h : t.down = s.session.down ++ calls) :
    (s.advance t).downAt = s.downAt ++ List.replicate calls.length s.now := by
  simp [advance, h]

theorem advance_upAt {calls : List ServerProxy.Call} (h : t.up = s.session.up ++ calls) :
    (s.advance t).upAt = s.upAt ++ List.replicate calls.length s.now := by
  simp [advance, h]

section Advance

variable {downs : List Call} {ups : List ServerProxy.Call}

theorem Clocked.advance (h : s.Clocked) (hdown : t.down = s.session.down ++ downs)
    (hup : t.up = s.session.up ++ ups) : (s.advance t).Clocked where
  downLen := by
    rw [advance_downAt hdown, List.length_append, List.length_replicate, ← h.downLen]
    exact (congrArg List.length hdown).trans List.length_append
  upLen := by
    rw [advance_upAt hup, List.length_append, List.length_replicate, ← h.upLen]
    exact (congrArg List.length hup).trans List.length_append
  downPast u hu := by
    rw [advance_downAt hdown] at hu
    rcases List.mem_append.1 hu with hu | hu
    · exact h.downPast u hu
    · exact (List.eq_of_mem_replicate hu).le
  upPast u hu := by
    rw [advance_upAt hup] at hu
    rcases List.mem_append.1 hu with hu | hu
    · exact h.upPast u hu
    · exact (List.eq_of_mem_replicate hu).le
  readyPast := h.readyPast

/-- What was in flight to the client and was not handled stays in flight, and what is sent is in
flight. -/
theorem inFlight_down {call : Call} {u : ℚ} {k : ℕ}
    (h : InFlight s.session.down s.downAt k call u)
    (hdown : t.down = s.session.down ++ downs) (hheard : t.heard = k) :
    InFlight (s.advance t).session.down (s.advance t).downAt (s.advance t).session.heard call
      u := by
  rw [advance_downAt hdown, show (s.advance t).session.down = _ from hdown,
    show (s.advance t).session.heard = _ from hheard]
  exact h.append downs _

theorem inFlight_up {call : ServerProxy.Call} {u : ℚ}
    (h : InFlight s.session.up s.upAt s.session.read call u)
    (hup : t.up = s.session.up ++ ups) (hread : t.read = s.session.read) :
    InFlight (s.advance t).session.up (s.advance t).upAt (s.advance t).session.read call u := by
  rw [advance_upAt hup, show (s.advance t).session.up = _ from hup,
    show (s.advance t).session.read = _ from hread]
  exact h.append ups _

theorem inFlight_sent {call : Call} (hcall : call ∈ downs) (h : s.Clocked)
    (hle : s.session.heard ≤ s.session.down.length)
    (hdown : t.down = s.session.down ++ downs) (hheard : t.heard = s.session.heard) :
    InFlight (s.advance t).session.down (s.advance t).downAt (s.advance t).session.heard call
      s.now := by
  rw [advance_downAt hdown, show (s.advance t).session.down = _ from hdown,
    show (s.advance t).session.heard = _ from hheard]
  exact InFlight.of_mem h.downLen hle hcall s.now

/-- No message is late when nothing new is handled late. -/
theorem InTime.down_advance (h : s.InTime τ s.now) (hdown : t.down = s.session.down ++ downs)
    (hheard : s.session.heard ≤ t.heard) (hconn : s.session.ends.disconnected = false) :
    ∀ u ∈ (s.advance t).downAt.drop t.heard, s.now ≤ u + τ.latency := by
  intro u hu
  rw [advance_downAt hdown] at hu
  rcases mem_drop_append_replicate hheard hu with hu | rfl
  · exact h.down hconn u hu
  · exact le_add_of_nonneg_right τ.latency_nonneg

theorem InTime.up_advance (h : s.InTime τ s.now) (hup : t.up = s.session.up ++ ups)
    (hread : s.session.read ≤ t.read) (hflat : s.flatlined = false) :
    ∀ u ∈ (s.advance t).upAt.drop t.read, s.now ≤ u + τ.latency := by
  intro u hu
  rw [advance_upAt hup] at hu
  rcases mem_drop_append_replicate hread hu with hu | rfl
  · exact h.up hflat u hu
  · exact le_add_of_nonneg_right τ.latency_nonneg

end Advance

/-! ### Actions of the server -/

/-- What an action of the server does to a session. -/
structure Acts (e e' : Session.Ends) (act : ServerAct) (calls : List Call) : Prop where
  known : e.stage ≠ .unknown
  connected : e'.disconnected = e.disconnected
  /-- An action that ends the wait for `adoptClient` sends a beat. -/
  stage : e'.stage = e.stage ∨ e'.stage ≠ .unknown ∧ e'.stage ≠ .ready ∧
    (e.stage = .ready → ∃ call ∈ calls, beats call = true)
  ready : e'.stage = .ready → calls.filterMap rateSet = []
  keepAlive : act = .keepAlive → calls = [.keepAlive]

theorem acts_of_serverActs {e e' : Session.Ends} {act : ServerAct} {calls : List Call}
    (h : e.serverActs act = some (e', calls)) : Acts e e' act calls := by
  cases act with
  | keepAlive =>
    obtain ⟨hstage, h⟩ := Option.ite_none_right_eq_some.1 h
    cases h
    exact ⟨hstage, rfl, .inl rfl, fun _ => rfl, fun _ => rfl⟩
  | refuse msg =>
    obtain ⟨⟨hstage, -⟩, h⟩ := Option.ite_none_right_eq_some.1 h
    cases h
    refine ⟨by rw [hstage]; decide, rfl, .inr ⟨by simp, by simp, fun _ => ?_⟩, fun _ => rfl, ?_⟩
    · exact ⟨.close msg, List.mem_singleton_self _, rfl⟩
    · intro hact
      cases hact
  | accept options saver =>
    obtain ⟨hstage, h⟩ := Option.ite_none_right_eq_some.1 h
    cases h
    refine ⟨by rw [hstage]; decide, rfl, .inr ⟨by simp, by simp, fun _ => ?_⟩, ?_, ?_⟩
    · exact ⟨.resetOptions, List.mem_cons_self, rfl⟩
    · intro hready
      cases hready
    · intro hact
      cases hact
  | relay call =>
    obtain ⟨⟨hstage, -⟩, h⟩ := Option.ite_none_right_eq_some.1 h
    cases h
    refine ⟨by rw [hstage]; decide, rfl, .inl rfl, ?_, ?_⟩
    · intro hready
      rw [hstage] at hready
      cases hready
    · intro hact
      cases hact
  | close =>
    obtain ⟨hstage, h⟩ := Option.ite_none_right_eq_some.1 h
    cases h
    refine ⟨by rw [hstage]; decide, rfl, .inr ⟨by simp, by simp, fun _ => ?_⟩, fun _ => rfl, ?_⟩
    · exact ⟨.close .close, List.mem_singleton_self _, rfl⟩
    · intro hact
      cases hact

/-- The rates that an action sends are slow enough if its options are. -/
theorem slow_of_serverActs {e e' : Session.Ends} {act : ServerAct} {calls : List Call}
    (h : e.serverActs act = some (e', calls)) (hallows : τ.Allows (sentOptions act)) :
    ∀ rate ∈ calls.filterMap rateSet, τ.Slow rate := by
  have hdefault : τ.Slow KeepAlive.keepAliveRate := .inr τ.roundTrip_lt
  -- Rates are set by the reset of options, to the default, and by options that are allowed.
  have hcall : ∀ call, (∀ options, call = .setOptions options → τ.Allows options) →
      ∀ rate, rateSet call = some rate → τ.Slow rate := by
    intro call hoptions rate hrate
    cases call with
    | resetOptions =>
      cases hrate
      exact hdefault
    | setOptions options => exact hoptions options rfl rate (List.mem_of_getLast? hrate)
    | _ => cases hrate
  intro rate hrate
  obtain ⟨call, hmem, hrate⟩ := List.mem_filterMap.1 hrate
  refine hcall call (fun options hoptions => ?_) rate hrate
  subst hoptions
  cases act with
  | keepAlive | refuse | close =>
    obtain ⟨-, h⟩ := Option.ite_none_right_eq_some.1 h
    cases h
    cases List.mem_singleton.1 hmem
  | accept options' saver =>
    obtain ⟨-, h⟩ := Option.ite_none_right_eq_some.1 h
    cases h
    have heq : options = options' := by
      cases saver <;> simpa [Session.welcome] using hmem
    exact heq ▸ hallows
  | relay call =>
    obtain ⟨-, h⟩ := Option.ite_none_right_eq_some.1 h
    cases h
    cases List.mem_singleton.1 hmem
    exact hallows

theorem serverTimers_eq {act : ServerAct} (h : act ≠ .keepAlive) (calls : List Call) :
    s.serverTimers act calls = ((calls.filterMap rateSet).getLast?).elim s.server
      (ServerTimers.settled s.server.strays s.now) := by
  rw [← ServerTimers.foldl_calls]
  cases act with
  | keepAlive => exact absurd rfl h
  | _ => rfl

/-- The timers of the server are one of these: set anew, counting again, or as they were. -/
def TimersAfter (s : TimedSession) (p : ServerTimers) (calls : List Call) : Prop :=
  (∃ rate, (calls.filterMap rateSet).getLast? = some rate ∧
    p = ServerTimers.settled s.server.strays s.now rate) ∨
  (calls = [.keepAlive] ∧ p = s.server.fire s.now) ∨
  (calls.filterMap rateSet = [] ∧ p = s.server)

theorem timersAfter_serverTimers {e e' : Session.Ends} {act : ServerAct} {calls : List Call}
    (h : Acts e e' act calls) : s.TimersAfter (s.serverTimers act calls) calls := by
  by_cases hact : act = .keepAlive
  · subst hact
    exact .inr (.inl ⟨h.keepAlive rfl, rfl⟩)
  · rw [serverTimers_eq hact]
    cases hlast : (calls.filterMap rateSet).getLast? with
    | some rate => exact .inl ⟨rate, hlast, rfl⟩
    | none => exact .inr (.inr ⟨List.getLast?_eq_none_iff.1 hlast, rfl⟩)

/-- The state when the server has acted and its timers are `p`. -/
def acted (s : TimedSession) (e' : Session.Ends) (p : ServerTimers) (calls : List Call) :
    TimedSession :=
  { s.advance (s.session.writes e' calls) with server := p }

/-- An action of the server is one of a session, and it sets the timers. -/
theorem server_eq_some {act : ServerAct} (h : s.step (.server act) = some s') :
    s.flatlined = false ∧ ∃ e' calls, s.session.ends.serverActs act = some (e', calls) ∧
      s.session.step (.server act) = some (s.session.writes e' calls) ∧
      s' = s.acted e' (s.serverTimers act calls) calls := by
  obtain ⟨hmay, h⟩ := Option.ite_none_right_eq_some.1 h
  obtain ⟨t, ht, rfl⟩ := Option.map_eq_some_iff.1 h
  obtain ⟨⟨e', calls⟩, hacts, rfl⟩ := Option.map_eq_some_iff.1 ht
  have hflat : s.flatlined = false := by
    cases act with
    | keepAlive => exact hmay.1
    | _ => exact hmay
  have hcalls : (s.session.writes e' calls).down.drop s.session.down.length = calls :=
    List.drop_left
  refine ⟨hflat, e', calls, hacts, ht, ?_⟩
  rw [hcalls]
  rfl

/-- A keep-alive that goes with a chunk is one of a session, and it leaves the timers alone. -/
theorem fileKeepAlive_eq_some (h : s.step .fileKeepAlive = some s') :
    s.flatlined = false ∧ ∃ e' calls, s.session.ends.serverActs .keepAlive = some (e', calls) ∧
      s.session.step (.server .keepAlive) = some (s.session.writes e' calls) ∧
      s.TimersAfter s.server calls ∧ s' = s.acted e' s.server calls := by
  obtain ⟨hflat, h⟩ := Option.ite_none_left_eq_some.1 h
  obtain ⟨t, ht, rfl⟩ := Option.map_eq_some_iff.1 h
  obtain ⟨⟨e', calls⟩, hacts, rfl⟩ := Option.map_eq_some_iff.1 ht
  have hcalls : calls = [.keepAlive] := (acts_of_serverActs hacts).keepAlive rfl
  refine ⟨Bool.eq_false_iff.2 hflat, e', calls, hacts, ht, .inr (.inr ⟨?_, rfl⟩), rfl⟩
  rw [hcalls]
  rfl

/-- An alarm that has just been set has hope: the next keep-alive comes within one rate. -/
theorem serverHope_of_runs {rate : ℚ}
    (h : s.server.Runs s.session.ends.stage rate s.now) (hstage : s.session.ends.stage ≠ .unknown)
    (hslow : τ.Slow rate) (hpos : 0 < rate)
    (hdue : due = s.now + rate * keepAlivesUntilDeath) : s.ServerHope τ due := by
  obtain ⟨t, ht, -, hle⟩ := h.timer hstage hpos
  refine .inr (.inr ⟨t, ht, ?_⟩)
  have hlt := hslow.lt hpos
  rw [hdue, keepAlivesUntilDeath]
  linarith

section Acted

variable {e' : Session.Ends} {act : ServerAct} {calls : List Call} {p : ServerTimers}

theorem Acts.known' (h : Acts s.session.ends e' act calls) : e'.stage ≠ .unknown := by
  rcases h.stage with hstage | ⟨hstage, -, -⟩
  · rw [hstage]
    exact h.known
  · exact hstage

theorem runs_acted (h : s.server.Runs s.session.ends.stage (lastRate s.session.down) s.now)
    (hacts : Acts s.session.ends e' act calls) (htimers : s.TimersAfter p calls) :
    p.Runs e'.stage (lastRate (s.session.down ++ calls)) s.now := by
  have hknown := hacts.known'
  rcases htimers with ⟨rate, hlast, rfl⟩ | ⟨rfl, rfl⟩ | ⟨hnone, rfl⟩
  · rw [h.strays, KeepAlive.lastRate_append, hlast, Option.getD_some]
    exact ServerTimers.runs_settled hknown _ _
  · rw [KeepAlive.lastRate_append]
    exact (h.fire hacts.known).of_known hacts.known hknown
  · rw [KeepAlive.lastRate_append, hnone]
    exact h.of_known hacts.known hknown

/-- The timer of keep-alives is not late when the server has acted. -/
theorem due_of_acted (h : s.server.Runs s.session.ends.stage (lastRate s.session.down) s.now)
    (hin : s.InTime τ s.now) (hflat : s.flatlined = false)
    (hacts : Acts s.session.ends e' act calls) (htimers : s.TimersAfter p calls) :
    ∀ t ∈ p.keepAliveTimer, s.now ≤ t.due + τ.lag := by
  intro t ht
  have hlag := τ.lag_nonneg
  rcases htimers with ⟨rate, -, rfl⟩ | ⟨rfl, rfl⟩ | ⟨-, rfl⟩
  · rw [ServerTimers.settled] at ht
    by_cases hpos : 0 < rate
    · rw [if_pos hpos] at ht
      cases ht
      show s.now ≤ s.now + rate + τ.lag
      linarith
    · rw [if_neg hpos] at ht
      cases ht
  · rw [ServerTimers.fire] at ht
    obtain ⟨u, hu, rfl⟩ := Option.map_eq_some_iff.1 ht
    have hpos : 0 < lastRate s.session.down := by
      by_contra hoff
      rw [h.off hoff] at hu
      cases hu
    obtain ⟨v, hv, hperiod, -⟩ := h.timer hacts.known hpos
    cases hu.symm.trans hv
    show s.now ≤ s.now + u.period + τ.lag
    linarith
  · exact hin.timer hflat t ht

/-- What the client waits for comes soon enough for a beat that is sent now. -/
theorem ClientHope.cases_now (h : s.ClientHope τ due) (hknown : s.session.ends.stage ≠ .unknown)
    (hin : s.InTime τ s.now) (hflat : s.flatlined = false) :
    (∃ call t, beats call = true ∧ InFlight s.session.down s.downAt s.session.heard call t ∧
      t + τ.latency < due) ∨ s.now + τ.latency < due := by
  rcases h with h | ⟨t, ht, hlt⟩ | ⟨hready, hlt⟩ | ⟨hunknown, -⟩
  · exact .inl h
  · exact .inr (by linarith [hin.timer hflat t ht])
  · exact .inr (by linarith [hin.ready hflat hready])
  · exact absurd hunknown hknown

theorem ClientHope.acted (h : s.ClientHope τ due) (hacts : Acts s.session.ends e' act calls)
    (hclocked : s.Clocked) (hle : s.session.heard ≤ s.session.down.length)
    (hin : s.InTime τ s.now) (hflat : s.flatlined = false) (htimers : s.TimersAfter p calls) :
    (s.acted e' p calls).ClientHope τ due := by
  by_cases hbeat : ∃ call ∈ calls, beats call = true
  · obtain ⟨call, hcall, hbeats⟩ := hbeat
    -- a beat is sent now, and comes soon enough if nothing before it does
    refine .inl ?_
    rcases h.cases_now hacts.known hin hflat with ⟨c, u, hc, hu, hlt⟩ | hlt
    · exact ⟨c, u, hc, inFlight_down hu rfl rfl, hlt⟩
    · exact ⟨call, s.now, hbeats, inFlight_sent hcall hclocked hle rfl rfl, hlt⟩
  · rcases h with ⟨c, u, hc, hu, hlt⟩ | ⟨u, hu, hlt⟩ | ⟨hready, hlt⟩ | ⟨hunknown, -⟩
    · exact .inl ⟨c, u, hc, inFlight_down hu rfl rfl, hlt⟩
    · refine .inr (.inl ⟨u, ?_, hlt⟩)
      -- without a beat the timers are not set anew and no keep-alive is sent
      rcases htimers with ⟨rate, hlast, -⟩ | ⟨rfl, -⟩ | ⟨-, rfl⟩
      · obtain ⟨call, hcall, hset⟩ := List.mem_filterMap.1 (List.mem_of_getLast? hlast)
        exact absurd ⟨call, hcall, KeepAlive.beats_of_rateSet hset⟩ hbeat
      · exact absurd ⟨.keepAlive, List.mem_singleton_self _, rfl⟩ hbeat
      · exact hu
    · rcases hacts.stage with hstage | ⟨-, -, hsent⟩
      · exact .inr (.inr (.inl ⟨hstage.trans hready, hlt⟩))
      · exact absurd (hsent hready) hbeat
    · exact absurd hunknown hacts.known

theorem ServerHope.fired (h : s.ServerHope τ due) (hclocked : s.Clocked)
    (hle : s.session.heard ≤ s.session.down.length) (hin : s.InTime τ s.now)
    (hflat : s.flatlined = false) : (s.acted e' p [.keepAlive]).ServerHope τ due := by
  rcases h with ⟨c, u, hu, hlt⟩ | ⟨u, hu, hlt⟩ | ⟨t, ht, hlt⟩
  · exact .inl ⟨c, u, inFlight_up hu (List.append_nil _).symm rfl, hlt⟩
  · exact .inr (.inl ⟨u, inFlight_down hu rfl rfl, hlt⟩)
  · refine .inr (.inl ⟨s.now, ?_, ?_⟩)
    · exact inFlight_sent (List.mem_singleton_self _) hclocked hle rfl rfl
    · linarith [hin.timer hflat t ht]

theorem ServerHope.kept (h : s.ServerHope τ due) :
    (s.acted e' s.server calls).ServerHope τ due := by
  rcases h with ⟨c, u, hu, hlt⟩ | ⟨u, hu, hlt⟩ | h
  · exact .inl ⟨c, u, inFlight_up hu (List.append_nil _).symm rfl, hlt⟩
  · exact .inr (.inl ⟨u, inFlight_down hu rfl rfl, hlt⟩)
  · exact .inr (.inr h)

theorem Hopeful.acted (h : s.Hopeful τ) (hinv : s.Inv τ)
    (hle : s.session.heard ≤ s.session.down.length) (hflat : s.flatlined = false)
    (hacts : Acts s.session.ends e' act calls) (htimers : s.TimersAfter p calls)
    (hslow : ∀ rate ∈ calls.filterMap rateSet, τ.Slow rate) : (s.acted e' p calls).Hopeful τ := by
  intro hconn due hdue
  replace hconn : s.session.ends.disconnected = false := hacts.connected.symm.trans hconn
  change due ∈ p.heartbeatTimer at hdue
  have hruns := runs_acted (hinv.server hflat) hacts htimers
  rcases htimers with ⟨rate, hlast, rfl⟩ | ⟨rfl, rfl⟩ | ⟨-, rfl⟩
  · rw [KeepAlive.lastRate_append, hlast, Option.getD_some] at hruns
    rw [ServerTimers.settled] at hdue
    by_cases hpos : 0 < rate
    · rw [if_pos hpos] at hdue
      exact serverHope_of_runs hruns hacts.known' (hslow rate (List.mem_of_getLast? hlast)) hpos
        (Option.some.inj hdue).symm
    · rw [if_neg hpos] at hdue
      cases hdue
  · exact (h hconn due hdue).fired hinv.clocked hle hinv.inTime hflat
  · exact (h hconn due hdue).kept

/-- An action of the server keeps all of it. -/
theorem Inv.acted (h : s.Inv τ) (hle : s.session.heard ≤ s.session.down.length)
    (hflat : s.flatlined = false) (hacts : Acts s.session.ends e' act calls)
    (htimers : s.TimersAfter p calls) (hslow : ∀ rate ∈ calls.filterMap rateSet, τ.Slow rate)
    (hsession : Session.lts.ReachableVia Session.Admits (s.session.writes e' calls)) :
    (s.acted e' p calls).Inv τ where
  session := hsession
  clocked :=
    have hadv : (s.advance (s.session.writes e' calls)).Clocked :=
      h.clocked.advance rfl (List.append_nil _).symm
    ⟨hadv.downLen, hadv.upLen, hadv.downPast, hadv.upPast, hadv.readyPast⟩
  inTime := by
    refine ⟨fun hconn => ?_, fun _ => ?_, fun _ t ht => ?_, fun _ hready => ?_⟩
    · exact h.inTime.down_advance rfl le_rfl (hacts.connected.symm.trans hconn)
    · exact h.inTime.up_advance (List.append_nil _).symm le_rfl hflat
    · exact due_of_acted (h.server hflat) h.inTime hflat hacts htimers t ht
    · rcases hacts.stage with hstage | ⟨-, hne, -⟩
      · exact h.inTime.ready hflat (hstage.symm.trans hready)
      · exact absurd hready hne
  slow rate hrate := by
    change rate ∈ (s.session.down ++ calls).filterMap rateSet at hrate
    rw [List.filterMap_append, List.mem_append] at hrate
    exact hrate.elim (h.slow rate) (hslow rate)
  unknown hunknown := absurd hunknown hacts.known'
  ready hready := by
    show (s.session.down ++ calls).filterMap rateSet = []
    rw [List.filterMap_append, hacts.ready hready, List.append_nil]
    rcases hacts.stage with hstage | ⟨-, hne, -⟩
    · exact h.ready (hstage.symm.trans hready)
    · exact absurd hready hne
  server _ := runs_acted (h.server hflat) hacts htimers
  client hconn := by
    show s.client.keepAliveAlarm =
      lastRate ((s.session.down ++ calls).take s.session.heard) * keepAlivesUntilDeath
    rw [List.take_append_of_le_length hle]
    exact h.client (hacts.connected.symm.trans hconn)
  -- the only field about what is to come: what the client waits for is still under way
  hope hconn due hdue :=
    (h.hope (hacts.connected.symm.trans hconn) due hdue).acted hacts h.clocked hle h.inTime hflat
      htimers
  gone hconn := h.gone (hacts.connected.symm.trans hconn)
  responsive := h.responsive
  flat hf := by
    rw [show s.flatlined = true from hf] at hflat
    cases hflat

end Acted

/-! ### Actions of the client -/

theorem connected_clientActs {e e' : Session.Ends} {act : ClientAct}
    {calls : List ServerProxy.Call} (h : e.clientActs act = some (e', calls)) :
    e'.disconnected = e.disconnected := by
  cases act with
  | moved | resized =>
    cases h
    rfl
  | shapeChanged =>
    obtain ⟨-, h⟩ := Option.ite_none_left_eq_some.1 h
    cases h
    rfl
  | send call =>
    obtain ⟨-, h⟩ := Option.ite_none_right_eq_some.1 h
    cases h
    rfl

/-- An action of the client is one of a session. -/
theorem client_eq_some {act : ClientAct} (h : s.step (.client act) = some s') :
    ∃ e' ups, s.session.ends.clientActs act = some (e', ups) ∧
      s.session.step (.client act) = some (s.session.replies e' ups) ∧
      s' = s.advance (s.session.replies e' ups) := by
  obtain ⟨t, ht, rfl⟩ := Option.map_eq_some_iff.1 h
  obtain ⟨⟨e', ups⟩, hacts, rfl⟩ := Option.map_eq_some_iff.1 ht
  exact ⟨e', ups, hacts, ht, rfl⟩

section Replied

variable {e' : Session.Ends} {ups : List ServerProxy.Call}

theorem ServerHope.replied (h : s.ServerHope τ due) :
    (s.advance (s.session.replies e' ups)).ServerHope τ due := by
  rcases h with ⟨c, u, hu, hlt⟩ | ⟨u, hu, hlt⟩ | h
  · exact .inl ⟨c, u, inFlight_up hu rfl rfl, hlt⟩
  · exact .inr (.inl ⟨u, inFlight_down hu (List.append_nil _).symm rfl, hlt⟩)
  · exact .inr (.inr h)

theorem ClientHope.replied (h : s.ClientHope τ due) (hstage : e'.stage = s.session.ends.stage) :
    (s.advance (s.session.replies e' ups)).ClientHope τ due := by
  rcases h with ⟨c, u, hc, hu, hlt⟩ | h | ⟨hready, hlt⟩ | ⟨hunknown, h⟩
  · exact .inl ⟨c, u, hc, inFlight_down hu (List.append_nil _).symm rfl, hlt⟩
  · exact .inr (.inl h)
  · exact .inr (.inr (.inl ⟨hstage.trans hready, hlt⟩))
  · refine .inr (.inr (.inr ⟨hstage.trans hunknown, ?_⟩))
    rcases h with ⟨c, u, hu, hlt⟩ | ⟨u, hu, hlt⟩
    · exact .inl ⟨c, u, inFlight_up hu rfl rfl, hlt⟩
    · exact .inr ⟨u, inFlight_down hu (List.append_nil _).symm rfl, hlt⟩

/-- An action of the client keeps all of it. -/
theorem Inv.replied (h : s.Inv τ) (hstage : e'.stage = s.session.ends.stage)
    (hconn : e'.disconnected = s.session.ends.disconnected)
    (hsession : Session.lts.ReachableVia Session.Admits (s.session.replies e' ups)) :
    (s.advance (s.session.replies e' ups)).Inv τ where
  session := hsession
  clocked := h.clocked.advance (List.append_nil _).symm rfl
  inTime := by
    refine ⟨fun hc => ?_, fun hflat => ?_, h.inTime.timer, fun hflat hready => ?_⟩
    · exact h.inTime.down_advance (List.append_nil _).symm le_rfl
        (hconn.symm.trans hc)
    · exact h.inTime.up_advance rfl le_rfl hflat
    · exact h.inTime.ready hflat (hstage.symm.trans hready)
  slow := h.slow
  unknown hunknown := h.unknown (hstage.symm.trans hunknown)
  ready hready := h.ready (hstage.symm.trans hready)
  server hflat := by
    show s.server.Runs e'.stage (lastRate s.session.down) s.now
    rw [hstage]
    exact h.server hflat
  client hc := h.client (hconn.symm.trans hc)
  hope hc due hdue := (h.hope (hconn.symm.trans hc) due hdue).replied hstage
  gone hc := h.gone (hconn.symm.trans hc)
  responsive := h.responsive
  flat hflat := hconn.trans (h.flat hflat)

end Replied

/-! ### The server reads -/

/-- Before the first report is handled, it is the first message in flight. -/
theorem sendInfo_of_unknown {call : ServerProxy.Call}
    (hs : Session.lts.ReachableVia Session.Admits t) (hstage : t.ends.stage = .unknown)
    (hcall : t.up[t.read]? = some call) :
    ∃ r : Report, call = r.call := by
  have hordered := Session.ordered_of_runs hs
  have hacked := Session.acked_of_runs hs
  have hsaves : t.saves = [] := by
    by_contra hne
    exact hacked.stage.2 hne hstage
  cases hup : t.up with
  | nil =>
    rw [hup] at hcall
    cases hcall
  | cons first rest =>
    have hfollows := hordered.up
    rw [hup] at hfollows
    have hfirst : ∃ r : Report, first = r.call := by
      cases first with
      | sendInfo x y w h mx my => exact ⟨⟨x, y, w, h, mx, my⟩, rfl⟩
      | _ => exact hfollows.elim
    obtain ⟨r, rfl⟩ := hfirst
    cases hread : t.read with
    | zero =>
      rw [hup, hread] at hcall
      exact ⟨r, (Option.some.inj hcall).symm⟩
    | succ n =>
      rw [Session.saves, hup, hread, List.take_succ_cons, List.filterMap_cons] at hsaves
      cases hsaves

/-- The session when the server has handled a message. -/
def readOne (t : Session) (call : ServerProxy.Call) : Session :=
  { t with read := t.read + 1 }.writes (t.ends.serverHears (ServerProxy.onWire call)).1
    (t.ends.serverHears (ServerProxy.onWire call)).2

/-- The state when the server has handled a message. -/
def heardOne (s : TimedSession) (call : ServerProxy.Call) : TimedSession :=
  { s.advance (readOne s.session call) with
    server := s.server.hears s.now s.session.ends.stage call
    readyAt := if s.session.ends.stage = .unknown then s.now else s.readyAt }

theorem serverHears_eq_some (h : s.serverHears = some s') :
    ∃ call, s.session.up[s.session.read]? = some call ∧
      s.session.step .serverHears = some (readOne s.session call) ∧ s' = s.heardOne call := by
  obtain ⟨call, hcall, h⟩ := Option.bind_eq_some_iff.1 h
  obtain ⟨t, ht, rfl⟩ := Option.map_eq_some_iff.1 h
  have hstep : s.session.step .serverHears = some (readOne s.session call) := by
    rw [Session.step, hcall]
    rfl
  cases ht.symm.trans hstep
  exact ⟨call, hcall, hstep, rfl⟩

section HeardOne

variable {call : ServerProxy.Call}

/-- What a message does to the ends; only reports are answered. -/
theorem ends_readOne (hs : Session.lts.ReachableVia Session.Admits t)
    (hcall : t.up[t.read]? = some call) :
    (readOne t call).ends.disconnected = t.ends.disconnected ∧
      (readOne t call).ends.stage = (if t.ends.stage = .unknown then .ready else t.ends.stage) ∧
      ∃ downs, (readOne t call).down = t.down ++ downs ∧ ∀ c ∈ downs, beats c = false := by
  by_cases hstage : t.ends.stage = .unknown
  · obtain ⟨r, rfl⟩ := sendInfo_of_unknown hs hstage hcall
    rw [readOne, Session.onWire_call]
    refine ⟨rfl, rfl, [.infoAck], rfl, fun c hc => ?_⟩
    rw [List.mem_singleton.1 hc]
    rfl
  · rw [if_neg hstage]
    cases call with
    | sendInfo x y w h mx my =>
      rw [readOne, show ServerProxy.onWire (.sendInfo x y w h mx my) = _ from
        Session.onWire_call ⟨x, y, w, h, mx, my⟩]
      refine ⟨rfl, if_neg hstage, [.infoAck], rfl, fun c hc => ?_⟩
      rw [List.mem_singleton.1 hc]
      rfl
    | _ => exact ⟨rfl, rfl, [], rfl, fun c hc => absurd hc List.not_mem_nil⟩

/-- The timers when the server has handled a message: the timer of keep-alives is set if it was the
first report. -/
theorem runs_heardOne (h : s.server.Runs s.session.ends.stage (lastRate s.session.down) s.now)
    (hs : Session.lts.ReachableVia Session.Admits s.session)
    (hcall : s.session.up[s.session.read]? = some call) :
    (s.server.hears s.now s.session.ends.stage call).Runs
      (if s.session.ends.stage = .unknown then .ready else s.session.ends.stage)
      (lastRate s.session.down) s.now := by
  by_cases hstage : s.session.ends.stage = .unknown
  · obtain ⟨r, rfl⟩ := sendInfo_of_unknown hs hstage hcall
    rw [hstage] at h ⊢
    exact h.add (by decide)
  · rw [if_neg hstage]
    cases call with
    | sendInfo =>
      rw [ServerTimers.hears_sendInfo hstage]
      exact h
    | keepAlive =>
      rw [ServerTimers.hears_keepAlive hstage]
      exact h.reset hstage
    | _ => exact h

theorem keepAliveTimer_hears (p : ServerTimers) (now : ℚ) {stage : Stage}
    (hstage : stage ≠ .unknown) (call : ServerProxy.Call) :
    (p.hears now stage call).keepAliveTimer = p.keepAliveTimer := by
  cases call with
  | sendInfo => rw [ServerTimers.hears_sendInfo hstage]
  | keepAlive =>
    rw [ServerTimers.hears_keepAlive hstage]
    rfl
  | _ => rfl

/-- The timer of keep-alives is not late when the server has handled a message. -/
theorem due_of_heardOne (h : s.Inv τ) (hflat : s.flatlined = false)
    (hcall : s.session.up[s.session.read]? = some call) :
    ∀ t ∈ (s.heardOne call).server.keepAliveTimer, s.now ≤ t.due + τ.lag := by
  intro u hu
  by_cases hunknown : s.session.ends.stage = .unknown
  · obtain ⟨r, rfl⟩ := sendInfo_of_unknown h.session hunknown hcall
    have htimer : (s.server.addHeartbeatTimer s.now).keepAliveTimer = some u := by
      change (s.server.hears s.now s.session.ends.stage r.call).keepAliveTimer = some u at hu
      rwa [hunknown] at hu
    rw [ServerTimers.addHeartbeatTimer] at htimer
    by_cases hpos : 0 < s.server.keepAliveRate
    · rw [if_pos hpos] at htimer
      cases htimer
      show s.now ≤ s.now + s.server.keepAliveRate + τ.lag
      linarith [τ.lag_nonneg]
    · rw [if_neg hpos, ((h.server hflat).unset hunknown).1] at htimer
      cases htimer
  · change u ∈ (s.server.hears s.now s.session.ends.stage call).keepAliveTimer at hu
    rw [keepAliveTimer_hears _ _ hunknown] at hu
    exact h.inTime.timer hflat u hu

/-- No call sets a rate before `adoptClient`. -/
theorem Inv.rates_early (h : s.Inv τ)
    (hstage : s.session.ends.stage = .unknown ∨ s.session.ends.stage = .ready) :
    s.session.down.filterMap rateSet = [] := by
  rcases hstage with hunknown | hready
  · refine List.filterMap_eq_nil_iff.2 fun c hc => ?_
    by_contra hne
    obtain ⟨rate, hset⟩ := Option.ne_none_iff_exists'.1 hne
    have hbeats := KeepAlive.beats_of_rateSet hset
    rw [h.unknown hunknown c hc] at hbeats
    cases hbeats
  · exact h.ready hready

/-- The hope of the client: the first report leads to `adoptClient`. -/
theorem ClientHope.heardOne (h : s.ClientHope τ due) (hinv : s.Inv τ)
    (hcall : s.session.up[s.session.read]? = some call) (hflat : s.flatlined = false)
    (hconn : s.session.ends.disconnected = false) : (s.heardOne call).ClientHope τ due := by
  obtain ⟨-, hstage, downs, hdown, -⟩ := ends_readOne hinv.session hcall
  have hlag := τ.lag_nonneg
  have hlatency := τ.latency_nonneg
  by_cases hunknown : s.session.ends.stage = .unknown
  · -- the first report: what was waited for was the report, now it is the adoption
    have hready : (s.heardOne call).session.ends.stage = .ready :=
      hstage.trans (if_pos hunknown)
    have hat : (s.heardOne call).readyAt = s.now := if_pos hunknown
    rcases h with ⟨c, u, hc, hu, hlt⟩ | ⟨u, hu, -⟩ | ⟨hr, -⟩ | ⟨-, h⟩
    · exact .inl ⟨c, u, hc, inFlight_down hu hdown rfl, hlt⟩
    · rw [((hinv.server hflat).unset hunknown).1] at hu
      cases hu
    · exact absurd (hunknown.symm.trans hr) (by decide)
    · refine .inr (.inr (.inl ⟨hready, ?_⟩))
      rw [hat]
      rcases h with ⟨c, u, hu, hlt⟩ | ⟨u, hu, hlt⟩
      · linarith [hinv.inTime.up hflat u hu.time_mem]
      · linarith [hinv.inTime.down hconn u hu.time_mem]
  · have hkept : (s.heardOne call).session.ends.stage = s.session.ends.stage :=
      hstage.trans (if_neg hunknown)
    rcases h with ⟨c, u, hc, hu, hlt⟩ | ⟨u, hu, hlt⟩ | ⟨hr, hlt⟩ | ⟨hr, -⟩
    · exact .inl ⟨c, u, hc, inFlight_down hu hdown rfl, hlt⟩
    · refine .inr (.inl ⟨u, ?_, hlt⟩)
      show u ∈ (s.server.hears s.now s.session.ends.stage call).keepAliveTimer
      rwa [keepAliveTimer_hears _ _ hunknown]
    · refine .inr (.inr (.inl ⟨hkept.trans hr, ?_⟩))
      rwa [show (s.heardOne call).readyAt = s.readyAt from if_neg hunknown]
    · exact absurd hr hunknown

/-- A message that the server handles keeps all of it. -/
theorem Inv.heardOne (h : s.Inv τ) (hflat : s.flatlined = false)
    (hcall : s.session.up[s.session.read]? = some call)
    (hsession : Session.lts.ReachableVia Session.Admits (readOne s.session call)) :
    (s.heardOne call).Inv τ := by
  obtain ⟨hconn, hstage, downs, hdown, hbeats⟩ := ends_readOne h.session hcall
  have hup : (readOne s.session call).up = s.session.up ++ [] := (List.append_nil _).symm
  have hle := (Session.acked_of_runs h.session).heardLe
  -- An answer of the server is no beat, so that it sets no rate.
  have hnone : downs.filterMap rateSet = [] := List.filterMap_eq_nil_iff.2 fun c hc => by
    by_contra hne
    obtain ⟨rate, hset⟩ := Option.ne_none_iff_exists'.1 hne
    exact absurd (hbeats c hc) (by rw [KeepAlive.beats_of_rateSet hset]; decide)
  have hrates : (readOne s.session call).down.filterMap rateSet =
      s.session.down.filterMap rateSet := by
    rw [hdown, List.filterMap_append, hnone, List.append_nil]
  have hknown : (readOne s.session call).ends.stage ≠ .unknown := by
    rw [hstage]
    split_ifs with hunknown
    · decide
    · exact hunknown
  have hruns : (s.heardOne call).server.Runs (readOne s.session call).ends.stage
      (lastRate (readOne s.session call).down) s.now := by
    rw [hstage, lastRate, hrates]
    exact runs_heardOne (h.server hflat) h.session hcall
  have hclocked := h.clocked.advance hdown hup
  refine ⟨hsession, ?_, ?_, ?_, ?_, ?_, fun _ => hruns, ?_, ?_, ?_, h.responsive, ?_⟩
  · -- the clocks
    refine ⟨hclocked.downLen, hclocked.upLen, hclocked.downPast, hclocked.upPast, ?_⟩
    show (if s.session.ends.stage = .unknown then s.now else s.readyAt) ≤ s.now
    split_ifs
    · exact le_rfl
    · exact h.clocked.readyPast
  · -- the bounds: the first report starts the time for the adoption
    refine ⟨fun hc => ?_, fun _ => ?_, fun _ u hu => ?_, fun _ hready => ?_⟩
    · exact h.inTime.down_advance hdown le_rfl (hconn.symm.trans hc)
    · exact h.inTime.up_advance hup (Nat.le_succ _) hflat
    · exact due_of_heardOne h hflat hcall u hu
    · show s.now ≤ (if s.session.ends.stage = .unknown then s.now else s.readyAt) + τ.lag
      split_ifs with hunknown
      · exact le_add_of_nonneg_right τ.lag_nonneg
      · rw [if_neg hunknown] at hstage
        exact h.inTime.ready hflat (hstage.symm.trans hready)
  · rw [show (s.heardOne call).session.down.filterMap rateSet = _ from hrates]
    exact h.slow
  · intro hunknown
    exact absurd hunknown hknown
  · intro hready
    rw [show (s.heardOne call).session.down.filterMap rateSet = _ from hrates]
    refine h.rates_early ?_
    by_cases hunknown : s.session.ends.stage = .unknown
    · exact .inl hunknown
    · rw [if_neg hunknown] at hstage
      exact .inr (hstage.symm.trans hready)
  · -- the client has handled nothing, so that its rate and what it waits for are as before
    intro hc
    show s.client.keepAliveAlarm =
      lastRate ((readOne s.session call).down.take s.session.heard) * keepAlivesUntilDeath
    rw [hdown, List.take_append_of_le_length hle]
    exact h.client (hconn.symm.trans hc)
  · intro hc due hdue
    exact (h.hope (hconn.symm.trans hc) due hdue).heardOne h hcall hflat (hconn.symm.trans hc)
  · intro hc
    exact h.gone (hconn.symm.trans hc)
  · intro hf
    rw [show s.flatlined = true from hf] at hflat
    cases hflat

end HeardOne

theorem Inv.reset (h : s.Inv τ) (hstage : s.session.ends.stage ≠ .unknown) :
    Inv τ { s with server := s.server.resetHeartbeatTimer s.now } where
  session := h.session
  clocked := ⟨h.clocked.downLen, h.clocked.upLen, h.clocked.downPast, h.clocked.upPast,
    h.clocked.readyPast⟩
  inTime := ⟨h.inTime.down, h.inTime.up, h.inTime.timer, h.inTime.ready⟩
  slow := h.slow
  unknown := h.unknown
  ready := h.ready
  server hflat := (h.server hflat).reset hstage
  client := h.client
  hope := h.hope
  gone := h.gone
  responsive := h.responsive
  flat := h.flat

theorem Hopeful.reset (h : s.Inv τ) (hflat : s.flatlined = false)
    (hstage : s.session.ends.stage ≠ .unknown) :
    Hopeful τ { s with server := s.server.resetHeartbeatTimer s.now } := by
  intro _ due hdue
  have hruns := h.server hflat
  have halarm := hruns.uses.alarm
  rw [hruns.uses.rate] at halarm
  change due ∈ (if 0 < s.server.heartbeatAlarm then some (s.now + s.server.heartbeatAlarm)
    else none) at hdue
  by_cases hpos : 0 < lastRate s.session.down
  · rw [if_pos hpos] at halarm
    have hset : 0 < s.server.heartbeatAlarm := by
      rw [halarm]
      exact mul_pos hpos (by norm_num [keepAlivesUntilDeath])
    rw [if_pos hset, halarm] at hdue
    exact serverHope_of_runs (hruns.reset hstage) hstage
      (KeepAlive.Timing.slow_lastRate h.slow) hpos (Option.some.inj hdue).symm
  · rw [if_neg hpos] at halarm
    have hset : ¬0 < s.server.heartbeatAlarm := by
      rw [halarm]
      norm_num [keepAlivesUntilDeath]
    rw [if_neg hset] at hdue
    cases hdue

/-- `handle_data` keeps all of it, and its alarm has hope. -/
theorem Inv.serverReads {n : ℕ} (h : s.Inv τ) (hflat : s.flatlined = false)
    (hstage : n = 0 → s.session.ends.stage ≠ .unknown) (hs : serverReads n s = some s') :
    s'.Inv τ ∧ s'.Hopeful τ := by
  induction n generalizing s with
  | zero =>
    cases hs
    exact ⟨h.reset (hstage rfl), .reset h hflat (hstage rfl)⟩
  | succ n ih =>
    obtain ⟨u, hu, hs⟩ := Option.bind_eq_some_iff.1 hs
    obtain ⟨call, hcall, hstep, rfl⟩ := serverHears_eq_some hu
    have hinv := h.heardOne hflat hcall 
      (.step h.session (show Session.Admits s.session .serverHears from trivial) hstep)
    refine ih hinv hflat (fun _ => ?_) hs
    rw [show (s.heardOne call).session.ends.stage = _ from (ends_readOne h.session hcall).2.1]
    split_ifs with hunknown
    · decide
    · exact hunknown

/-! ### The client reads -/

/-- The session when the client has handled a message. -/
def hearOne (t : Session) (call : Call) : Session :=
  Session.replies { t with heard := t.heard + 1, obeyed := t.obeyed ++ t.obeys call }
    (t.ends.clientHears (ClientConnection.onWire call)).1
    (t.ends.clientHears (ClientConnection.onWire call)).2

/-- The state when the client has handled a message. -/
def gotOne (s : TimedSession) (call : Call) : TimedSession :=
  { s.advance (hearOne s.session call) with client := s.client.hears s.now call }

section GotOne

variable {call : Call}

/-- What a message does to the ends. -/
theorem ends_hearOne (t : Session) (call : Call) :
    (hearOne t call).ends.stage = t.ends.stage ∧
      ((hearOne t call).ends.disconnected = false → t.ends.disconnected = false ∧
        ∀ msg, call ≠ .close msg) := by
  cases call with
  | close msg => exact ⟨rfl, fun h => absurd h (by decide : ¬true = false)⟩
  | _ => exact ⟨rfl, fun h => ⟨h, fun msg hmsg => by cases hmsg⟩⟩

/-- What the client answers is in flight. -/
theorem inFlight_replied {ups : List ServerProxy.Call} {answer : ServerProxy.Call}
    (hmem : answer ∈ ups) (h : s.Inv τ) (hup : t.up = s.session.up ++ ups)
    (hread : t.read = s.session.read) :
    InFlight (s.advance t).session.up (s.advance t).upAt (s.advance t).session.read answer
      s.now := by
  rw [advance_upAt hup, show (s.advance t).session.up = _ from hup,
    show (s.advance t).session.read = _ from hread]
  exact InFlight.of_mem h.clocked.upLen (Session.acked_of_runs h.session).readLe hmem s.now

/-- Questions and keep-alives are answered. -/
theorem up_hearOne (t : Session) (call : Call) :
    ∃ ups, (hearOne t call).up = t.up ++ ups ∧
      (call = .queryInfo ∨ call = .keepAlive → ∃ answer, answer ∈ ups) := by
  refine ⟨_, rfl, fun h => ?_⟩
  rcases h with rfl | rfl
  · exact ⟨_, List.mem_singleton_self _⟩
  · exact ⟨_, List.mem_singleton_self _⟩

/-- The rate that the client has heard of last. -/
theorem lastRate_take_succ {calls : List Call} {k : ℕ} (h : calls[k]? = some call) :
    lastRate (calls.take (k + 1)) = (rateSet call).getD (lastRate (calls.take k)) := by
  rw [List.take_add_one, h, Option.toList_some, KeepAlive.lastRate_append]
  cases hset : rateSet call <;> simp [hset]

/-- What a beat does to the timer. -/
theorem hears_of_beats (h : s.client.keepAliveAlarm =
      lastRate (s.session.down.take s.session.heard) * keepAlivesUntilDeath)
    (hcall : s.session.down[s.session.heard]? = some call) (hbeats : beats call = true)
    (hopen : ∀ msg, call ≠ .close msg) :
    s.client.hears s.now call = ClientTimers.settled s.now
      (lastRate (s.session.down.take (s.session.heard + 1))) := by
  rw [lastRate_take_succ hcall]
  cases hset : rateSet call with
  | some rate => exact ClientTimers.hears_of_rateSet hset
  | none =>
    cases call with
    | keepAlive => exact ClientTimers.resetKeepAliveAlarm_eq h
    | close msg => exact absurd rfl (hopen msg)
    | setOptions options =>
      rw [show beats (.setOptions options) = (rateSet (.setOptions options)).isSome from rfl,
        hset] at hbeats
      cases hbeats
    | resetOptions => cases hset
    | _ => cases hbeats

theorem ClientHope.gotOne (h : s.ClientHope τ due) (hinv : s.Inv τ)
    (hcall : s.session.down[s.session.heard]? = some call) (hbeats : beats call = false)
    (hconn : s.session.ends.disconnected = false) : (s.gotOne call).ClientHope τ due := by
  obtain ⟨ups, hup, hanswer⟩ := up_hearOne s.session call
  have hstage := (ends_hearOne s.session call).1
  have hdown : (hearOne s.session call).down = s.session.down ++ [] := (List.append_nil _).symm
  rcases h with ⟨c, u, hc, hu, hlt⟩ | h | ⟨hready, hlt⟩ | ⟨hunknown, h⟩
  · have hne : c ≠ call := by
      rintro rfl
      rw [hbeats] at hc
      cases hc
    exact .inl ⟨c, u, hc, inFlight_down (hu.handled hcall hne) hdown rfl, hlt⟩
  · exact .inr (.inl h)
  · exact .inr (.inr (.inl ⟨hstage.trans hready, hlt⟩))
  · refine .inr (.inr (.inr ⟨hstage.trans hunknown, ?_⟩))
    rcases h with ⟨c, u, hu, hlt⟩ | ⟨u, hu, hlt⟩
    · exact .inl ⟨c, u, inFlight_up hu hup rfl, hlt⟩
    · by_cases hquery : call = .queryInfo
      · -- the answer takes the place of the question
        obtain ⟨answer, hmem⟩ := hanswer (.inl hquery)
        refine .inl ⟨answer, s.now, inFlight_replied hmem hinv hup rfl, ?_⟩
        linarith [hinv.inTime.down hconn u hu.time_mem]
      · exact .inr ⟨u, inFlight_down (hu.handled hcall (Ne.symm hquery)) hdown rfl, hlt⟩

/-- A beat sets the alarm, and the next one is on its way. -/
theorem clientHope_of_beats (hinv : s.Inv τ)
    (hcall : s.session.down[s.session.heard]? = some call) (hbeats : beats call = true)
    (hflat : s.flatlined = false)
    (hdue : due ∈ (ClientTimers.settled s.now
      (lastRate (s.session.down.take (s.session.heard + 1)))).keepAliveAlarmTimer) :
    (s.gotOne call).ClientHope τ due := by
  set rate := lastRate (s.session.down.take (s.session.heard + 1)) with hrate
  have hlag := τ.lag_nonneg
  have hlatency := τ.latency_nonneg
  have hdown : (hearOne s.session call).down = s.session.down ++ [] := (List.append_nil _).symm
  have hpos : 0 < rate := by
    by_contra hoff
    rw [ClientTimers.settled, if_neg hoff] at hdue
    cases hdue
  rw [ClientTimers.settled, if_pos hpos] at hdue
  have hdue : due = s.now + rate * keepAlivesUntilDeath := (Option.some.inj hdue).symm
  have hslow : τ.lag + 2 * τ.latency < 2 * rate := by
    refine (KeepAlive.Timing.slow_lastRate (fun r hr => hinv.slow r ?_)).lt hpos
    exact ((List.take_sublist _ _).filterMap rateSet).subset hr
  rw [keepAlivesUntilDeath] at hdue
  by_cases hlater : ∃ c ∈ s.session.down.drop (s.session.heard + 1), (rateSet c).isSome
  · -- a call that sets another rate comes next
    obtain ⟨c, hc, hset⟩ := hlater
    obtain ⟨r, hset⟩ := Option.isSome_iff_exists.1 hset
    obtain ⟨u, hu⟩ := InFlight.of_mem_drop hinv.clocked.downLen hc
    have hpast := hinv.clocked.downPast u (List.mem_of_mem_drop hu.time_mem)
    refine .inl ⟨c, u, KeepAlive.beats_of_rateSet hset, inFlight_down hu hdown rfl, ?_⟩
    linarith
  · -- The rate is also the last one sent, so that the server's timer runs at it.
    have hsame : lastRate s.session.down = rate := by
      rw [hrate]
      nth_rewrite 1 [← List.take_append_drop (s.session.heard + 1) s.session.down]
      refine KeepAlive.lastRate_append_of_none fun c hc => ?_
      by_contra hne
      exact hlater ⟨c, hc, Option.isSome_iff_ne_none.2 hne⟩
    have hknown : s.session.ends.stage ≠ .unknown := by
      intro hunknown
      have hno := hinv.unknown hunknown call (List.mem_of_getElem? hcall)
      rw [hbeats] at hno
      cases hno
    obtain ⟨t, ht, -, hle⟩ := (hinv.server hflat).timer hknown (hsame.symm ▸ hpos)
    rw [hsame] at hle
    refine .inr (.inl ⟨t, ht, ?_⟩)
    linarith

theorem Hopeful.gotOne (h : s.Hopeful τ) (hinv : s.Inv τ)
    (hcall : s.session.down[s.session.heard]? = some call) : (s.gotOne call).Hopeful τ := by
  intro hconn due hdue
  replace hconn := ((ends_hearOne s.session call).2 hconn).1
  obtain ⟨ups, hup, hanswer⟩ := up_hearOne s.session call
  have hdown : (hearOne s.session call).down = s.session.down ++ [] := (List.append_nil _).symm
  rcases h hconn due hdue with ⟨c, u, hu, hlt⟩ | ⟨u, hu, hlt⟩ | h
  · exact .inl ⟨c, u, inFlight_up hu hup rfl, hlt⟩
  · by_cases hping : call = .keepAlive
    · -- the echo takes the place of the keep-alive
      obtain ⟨answer, hmem⟩ := hanswer (.inr hping)
      refine .inl ⟨answer, s.now, inFlight_replied hmem hinv hup rfl, ?_⟩
      linarith [hinv.inTime.down hconn u hu.time_mem]
    · exact .inr (.inl ⟨u, inFlight_down (hu.handled hcall (Ne.symm hping)) hdown rfl, hlt⟩)
  · exact .inr (.inr h)

/-- A message that the client handles keeps all of it. -/
theorem Inv.gotOne (h : s.Inv τ) (hcall : s.session.down[s.session.heard]? = some call)
    (hconn : s.session.ends.disconnected = false)
    (hsession : Session.lts.ReachableVia Session.Admits (hearOne s.session call)) :
    (s.gotOne call).Inv τ := by
  obtain ⟨hstage, hopen⟩ := ends_hearOne s.session call
  obtain ⟨ups, hup, -⟩ := up_hearOne s.session call
  have hdown : (hearOne s.session call).down = s.session.down ++ [] := (List.append_nil _).symm
  have hflat : s.flatlined = false := Bool.eq_false_iff.2 fun hf => by
    rw [h.flat hf] at hconn
    cases hconn
  have hclocked := h.clocked.advance hdown hup
  -- A beat sets the alarm anew, at the rate of the calls handled so far.
  have hbeat : (hearOne s.session call).ends.disconnected = false → beats call = true →
      s.client.hears s.now call = ClientTimers.settled s.now
        (lastRate (s.session.down.take (s.session.heard + 1))) := fun hc hbeats =>
    hears_of_beats (h.client hconn) hcall hbeats (hopen hc).2
  refine ⟨hsession, ?_, ?_, h.slow, ?_, ?_, fun hf => ?_, fun hc => ?_, fun hc due hdue => ?_,
    fun hc => ?_, h.responsive, fun hf => ?_⟩
  · exact ⟨hclocked.downLen, hclocked.upLen, hclocked.downPast, hclocked.upPast,
      hclocked.readyPast⟩
  · refine ⟨fun _ => ?_, fun hf => ?_, h.inTime.timer, fun hf hready => ?_⟩
    · exact h.inTime.down_advance hdown (Nat.le_succ _) hconn
    · exact h.inTime.up_advance hup le_rfl hf
    · exact h.inTime.ready hf (hstage.symm.trans hready)
  · intro hunknown
    exact h.unknown (hstage.symm.trans hunknown)
  · intro hready
    exact h.ready (hstage.symm.trans hready)
  · show s.server.Runs (hearOne s.session call).ends.stage (lastRate s.session.down) s.now
    rw [hstage]
    exact h.server hf
  · -- the rate of the client's alarm
    show (s.client.hears s.now call).keepAliveAlarm =
      lastRate (s.session.down.take (s.session.heard + 1)) * keepAlivesUntilDeath
    rcases Bool.eq_false_or_eq_true (beats call) with hbeats | hbeats
    · rw [hbeat hc hbeats]
      rfl
    · have hset : rateSet call = none := by
        by_contra hne
        obtain ⟨rate, hset⟩ := Option.ne_none_iff_exists'.1 hne
        rw [KeepAlive.beats_of_rateSet hset] at hbeats
        cases hbeats
      rw [ClientTimers.hears_of_not_beats hbeats, lastRate_take_succ hcall, hset]
      exact h.client hconn
  · -- what the client waits for
    change due ∈ (s.client.hears s.now call).keepAliveAlarmTimer at hdue
    rcases Bool.eq_false_or_eq_true (beats call) with hbeats | hbeats
    · rw [hbeat hc hbeats] at hdue
      exact clientHope_of_beats h hcall hbeats hflat hdue
    · rw [ClientTimers.hears_of_not_beats hbeats] at hdue
      exact (h.hope hconn due hdue).gotOne h hcall hbeats hconn
  · -- only a call to close disconnects the client, which switches the alarm off
    cases call with
    | close msg =>
      show (s.client.setKeepAliveRate s.now (-1)).keepAliveAlarmTimer = none
      rw [ClientTimers.setKeepAliveRate_eq, ClientTimers.settled, if_neg (by norm_num)]
    | _ => exact absurd (hconn.symm.trans hc) Bool.false_ne_true
  · exact absurd (hflat.symm.trans hf) Bool.false_ne_true

end GotOne

theorem clientHears_eq_some (h : s.step .clientHears = some s') :
    s.session.ends.disconnected = false ∧ ∃ call,
      s.session.down[s.session.heard]? = some call ∧
      s.session.step .clientHears = some (hearOne s.session call) ∧ s' = s.gotOne call := by
  obtain ⟨call, hcall, h⟩ := Option.bind_eq_some_iff.1 h
  obtain ⟨t, ht, rfl⟩ := Option.map_eq_some_iff.1 h
  rcases Bool.eq_false_or_eq_true s.session.ends.disconnected with hconn | hconn
  · rw [Session.step, if_pos hconn] at ht
    cases ht
  · have hstep : s.session.step .clientHears = some (hearOne s.session call) := by
      rw [Session.step, hconn, hcall]
      rfl
    cases ht.symm.trans hstep
    exact ⟨hconn, call, hcall, hstep, rfl⟩

/-! ### Alarms -/

/-- An alarm of the client that has hope is not due. -/
theorem ClientHope.now_lt (h : s.ClientHope τ due) (hin : s.InTime τ s.now)
    (hconn : s.session.ends.disconnected = false) (hflat : s.flatlined = false) : s.now < due := by
  have hlag := τ.lag_nonneg
  have hlatency := τ.latency_nonneg
  rcases h with ⟨c, u, -, hu, hlt⟩ | ⟨t, ht, hlt⟩ | ⟨hready, hlt⟩ | ⟨-, h⟩
  · exact (hin.down hconn u hu.time_mem).trans_lt hlt
  · linarith [hin.timer hflat t ht]
  · linarith [hin.ready hflat hready]
  · rcases h with ⟨c, u, hu, hlt⟩ | ⟨u, hu, hlt⟩
    · linarith [hin.up hflat u hu.time_mem]
    · linarith [hin.down hconn u hu.time_mem]

theorem ServerHope.now_lt (h : s.ServerHope τ due) (hin : s.InTime τ s.now)
    (hconn : s.session.ends.disconnected = false) (hflat : s.flatlined = false) : s.now < due := by
  have hlag := τ.lag_nonneg
  have hlatency := τ.latency_nonneg
  rcases h with ⟨c, u, hu, hlt⟩ | ⟨u, hu, hlt⟩ | ⟨t, ht, hlt⟩
  · exact (hin.up hflat u hu.time_mem).trans_lt hlt
  · linarith [hin.down hconn u hu.time_mem]
  · linarith [hin.timer hflat t ht]

/-- Time that passes in time keeps all of it. -/
theorem Inv.pass (h : s.Inv τ) {d : ℚ} (hd : 0 ≤ d) (hin : s.InTime τ (s.now + d)) :
    Inv τ { s with now := s.now + d } where
  session := h.session
  clocked :=
    have hle : s.now ≤ s.now + d := le_add_of_nonneg_right hd
    ⟨h.clocked.downLen, h.clocked.upLen, fun t ht => (h.clocked.downPast t ht).trans hle,
      fun t ht => (h.clocked.upPast t ht).trans hle, h.clocked.readyPast.trans hle⟩
  inTime := ⟨hin.down, hin.up, hin.timer, hin.ready⟩
  slow := h.slow
  unknown := h.unknown
  ready := h.ready
  server hflat := (h.server hflat).later (le_add_of_nonneg_right hd)
  client := h.client
  hope := h.hope
  gone := h.gone
  responsive := h.responsive
  flat := h.flat

/-- The server may take a client for dead that has disconnected. -/
theorem Inv.flatline (h : s.Inv τ) (hconn : s.session.ends.disconnected = true) :
    Inv τ { s with
      flatlined := true
      server := s.server.removeHeartbeatTimer } where
  session := h.session
  clocked := ⟨h.clocked.downLen, h.clocked.upLen, h.clocked.downPast, h.clocked.upPast,
    h.clocked.readyPast⟩
  inTime := by
    refine ⟨h.inTime.down, fun hf => ?_, fun hf => ?_, fun hf => ?_⟩
    all_goals cases hf
  slow := h.slow
  unknown := h.unknown
  ready := h.ready
  server hf := by cases hf
  client := h.client
  hope hc := absurd (hconn.symm.trans hc) (by decide)
  gone := h.gone
  responsive := h.responsive
  flat _ := hconn

/-! ### What a run keeps -/

theorem Inv.step {ev : Event} (h : s.Inv τ) (hhope : s.Hopeful τ) (hadm : Admits τ s ev)
    (hst : s.step ev = some s') : s'.Inv τ ∧ s'.Hopeful τ := by
  cases ev with
  | pass d =>
    obtain ⟨hd, hst⟩ := Option.ite_none_right_eq_some.1 hst
    cases hst
    exact ⟨h.pass hd hadm, hhope⟩
  | server act =>
    obtain ⟨hflat, e', calls, hacts, hsession, rfl⟩ := server_eq_some hst
    have hle := (Session.acked_of_runs h.session).heardLe
    have hslow := slow_of_serverActs hacts hadm.2
    have hacts := acts_of_serverActs hacts
    have htimers := timersAfter_serverTimers (s := s) hacts
    exact ⟨h.acted hle hflat hacts htimers hslow (.step h.session hadm.1 hsession),
      hhope.acted h hle hflat hacts htimers hslow⟩
  | fileKeepAlive =>
    obtain ⟨hflat, e', calls, hacts, hsession, htimers, rfl⟩ := fileKeepAlive_eq_some hst
    have hle := (Session.acked_of_runs h.session).heardLe
    have hslow := slow_of_serverActs (τ := τ) hacts (fun _ h => absurd h List.not_mem_nil)
    have hacts := acts_of_serverActs hacts
    have hadm' : Session.Admits s.session (.server .keepAlive) := trivial
    exact ⟨h.acted hle hflat hacts htimers hslow (.step h.session hadm' hsession),
      hhope.acted h hle hflat hacts htimers hslow⟩
  | client act =>
    obtain ⟨e', ups, hacts, hsession, rfl⟩ := client_eq_some hst
    have hconn := connected_clientActs hacts
    refine ⟨h.replied (Session.saved_clientActs hacts).2 hconn (.step h.session hadm hsession), ?_⟩
    intro hc due hdue
    exact (hhope (hconn.symm.trans hc) due hdue).replied
  | serverReads n =>
    obtain ⟨hflat, hst⟩ := Option.ite_none_left_eq_some.1 hst
    exact h.serverReads (Bool.eq_false_iff.2 hflat) hadm hst
  | clientHears =>
    obtain ⟨hconn, call, hcall, hstep, rfl⟩ := clientHears_eq_some hst
    have hsession := h.session.step (show Session.Admits s.session .clientHears from trivial) hstep
    exact ⟨h.gotOne hcall hconn hsession, hhope.gotOne h hcall⟩
  | flatline =>
    obtain ⟨⟨hflat, due, hdue, hle⟩, hst⟩ := Option.ite_none_right_eq_some.1 hst
    cases hst
    have hconn : s.session.ends.disconnected = true := by
      by_contra hc
      have hc := Bool.eq_false_iff.2 hc
      rw [(h.server hflat).strays, List.append_nil] at hdue
      -- the alarm of a client that is there is not due, as a message is on its way
      have hlt := (hhope hc due (Option.mem_toList.1 hdue)).now_lt h.inTime hc hflat
      exact absurd hle (not_le.2 hlt)
    exact ⟨h.flatline hconn, fun hc => absurd (hconn.symm.trans hc) (by decide)⟩
  | alarm =>
    obtain ⟨⟨due, hdue, hle⟩, -⟩ := Option.ite_none_right_eq_some.1 hst
    rcases Bool.eq_false_or_eq_true s.session.ends.disconnected with hconn | hconn
    · -- after a disconnect there is no alarm
      rw [h.gone hconn] at hdue
      cases hdue
    · have hflat : s.flatlined = false := Bool.eq_false_iff.2 fun hf => by
        rw [h.flat hf] at hconn
        cases hconn
      exact absurd hle (not_le.2 ((h.hope hconn due hdue).now_lt h.inTime hconn hflat))

/-- The handshake leaves enough time for the first alarm of the client. -/
theorem inv_start {screen : Report} {since : ℚ} (hvalid : screen.Valid)
    (hsince : -τ.latency ≤ since) :
    (start screen since).Inv τ ∧ (start screen since).Hopeful τ := by
  have hlag := τ.lag_nonneg
  have hlatency := τ.latency_nonneg
  have htimer : (start screen since).client =
      ClientTimers.settled since KeepAlive.keepAliveRate := ClientTimers.setKeepAliveRate_eq _ _ _
  refine ⟨⟨.init ⟨screen, hvalid, rfl⟩, ?_, ?_, ?_, ?_, ?_, fun _ => ?_, ?_, ?_, ?_, rfl, ?_⟩, ?_⟩
  · refine ⟨rfl, rfl, fun t ht => ?_, fun t ht => absurd ht List.not_mem_nil, le_rfl⟩
    exact (List.mem_singleton.1 ht).le
  · refine ⟨fun _ t ht => ?_, fun _ t ht => absurd ht List.not_mem_nil, fun _ t ht => ?_,
      fun _ hready => ?_⟩
    · rw [List.mem_singleton.1 ht]
      exact le_add_of_nonneg_right hlatency
    · cases ht
    · cases hready
  · intro rate hrate
    cases hrate
  · intro _ call hcall
    rw [List.mem_singleton.1 hcall]
    rfl
  · intro hready
    cases hready
  · refine ⟨⟨rfl, rfl⟩, rfl, fun _ => ⟨rfl, rfl⟩, fun hne => absurd rfl hne, fun _ => rfl⟩
  · intro _
    rw [htimer]
    rfl
  · intro _ due hdue
    rw [htimer, ClientTimers.settled, if_pos (by norm_num [KeepAlive.keepAliveRate])] at hdue
    refine .inr (.inr (.inr ⟨rfl, .inr ⟨0, ⟨0, le_rfl, rfl, rfl⟩, ?_⟩⟩))
    rw [← Option.some.inj hdue]
    linarith [τ.handshake_lt]
  · intro hc
    cases hc
  · intro hf
    cases hf
  · intro _ due hdue
    cases hdue

theorem inv_of_reachable (hs : (lts τ).ReachableVia (Admits τ) s) : s.Inv τ ∧ s.Hopeful τ := by
  refine hs.invariant (I := fun s => s.Inv τ ∧ s.Hopeful τ) ?_
    fun s ev s' h hadm hst => h.1.step h.2 hadm hst
  rintro _ ⟨screen, since, hvalid, hsince, -, rfl⟩
  exact inv_start hvalid hsince

/-- **Keep-alives give no false alarm.**  As long as messages and timers take no longer than the
bounds that the rates allow, the client never takes the server for dead, the server takes only a
client for dead that it has told to close, and the session runs as one without timers. -/
theorem no_false_alarm (hs : (lts τ).ReachableVia (Admits τ) s) :
    s.unresponsive = false ∧ (s.flatlined = true → s.session.ends.disconnected = true) ∧
      Session.lts.ReachableVia Session.Admits s.session :=
  have h := (inv_of_reachable hs).1
  ⟨h.responsive, h.flat, h.session⟩

/-- Messages take a second at most. -/
def wideBounds : Timing where
  latency := 1
  lag := 1 / 2
  latency_nonneg := by norm_num
  lag_nonneg := by norm_num
  roundTrip_lt := by norm_num [KeepAlive.keepAliveRate]
  handshake_lt := by norm_num [KeepAlive.keepAliveRate, keepAlivesUntilDeath]

def fullHD : Report := ⟨0, 0, 1920, 1080, 960, 540⟩

/-- The client reports its screen and is adopted. -/
def adoption (options : List UInt32) : List Event :=
  [.pass 1, .clientHears, .pass 1, .serverReads 1, .server (.accept options false), .pass 1,
    .clientHears, .clientHears, .clientHears]

/-- With a slower rate, the next keep-alive comes when the first alarm of the client would have gone
off; it is echoed.  A clipboard brings another one, and the server closes. -/
def slowly : List Event :=
  adoption [OptionID.heartbeat.code.toUInt32, 10000] ++
    [.pass 9, .server .keepAlive, .pass 1, .clientHears, .pass 1, .serverReads 1, .fileKeepAlive,
      .server .close, .clientHears, .clientHears, .pass 1, .serverReads 1, .pass 7,
      .server .keepAlive, .pass 10, .server .keepAlive, .pass 10, .server .keepAlive, .pass 3,
      .flatline]

theorem no_false_alarm_slowly : ∃ s, (lts wideBounds).exec (start fullHD 0) slowly = some s ∧
    s.now = 45 ∧ s.unresponsive = false ∧ s.flatlined = true ∧
    s.session.ends.disconnected = true := by
  have hrun : ((lts wideBounds).exec (start fullHD 0) slowly).map
      (fun s => (s.now, s.flatlined)) = some (45, true) := by
    decide +kernel
  obtain ⟨s, hs, hfacts⟩ := Option.map_eq_some_iff.1 hrun
  obtain ⟨hnow, hflat⟩ := Prod.mk.inj hfacts
  have hadm : (lts wideBounds).Admits (Admits wideBounds) (start fullHD 0) slowly := by
    decide +kernel
  have hinit : (lts wideBounds).init (start fullHD 0) :=
    ⟨fullHD, 0, by decide, by decide +kernel, le_rfl, rfl⟩
  have hreach : (lts wideBounds).ReachableVia (Admits wideBounds) s :=
    LTS.ReachableVia.of_exec (.init hinit) hadm hs
  obtain ⟨halive, hclosed, -⟩ := no_false_alarm hreach
  exact ⟨s, hs, hnow, halive, hflat, hclosed hflat⟩

end TimedSession

end InputLeap
