import InputLeap.Session.Alive

/-!
# Silence is noticed

Whatever is delayed or lost, an end whose alarm is set and that gets no sign of life from the other
end gives up when the alarm goes off.

## Main definitions

* `TimedSession.Armed` : the alarms are set, and go off within the time of an alarm.
* `TimedSession.silentForServer`, `TimedSession.silentForClient` : an event that gives no sign of
  life.

## Main results

* `TimedSession.silence_noticed` : how long an end stays connected in silence.
-/

namespace InputLeap

open Session (Report Stage ServerAct ClientAct)
open KeepAlive (Timing ServerTimers ClientTimers lastRate rateSet keepAlivesUntilDeath)

namespace TimedSession

variable {τ : Timing} {s s' : TimedSession}

/-- An alarm of the server that is not off is set, and goes off within its time. -/
def ServerSet (p : ServerTimers) (now : ℚ) : Prop :=
  0 < p.heartbeatAlarm → ∃ due, p.heartbeatTimer = some due ∧ due ≤ now + p.heartbeatAlarm

/-- The same of the client. -/
def ClientSet (p : ClientTimers) (now : ℚ) : Prop :=
  0 < p.keepAliveAlarm → ∃ due, p.keepAliveAlarmTimer = some due ∧ due ≤ now + p.keepAliveAlarm

/-- Each end that is connected has set its alarm, the server behind the first report. -/
structure Armed (s : TimedSession) : Prop where
  server : s.flatlined = false → s.session.ends.stage ≠ .unknown → ServerSet s.server s.now
  client : s.session.ends.disconnected = false → ClientSet s.client s.now

/-! ### The timers of the server -/

theorem ServerSet.later {p : ServerTimers} {now now' : ℚ} (h : ServerSet p now)
    (hle : now ≤ now') : ServerSet p now' := by
  intro halarm
  obtain ⟨due, htimer, hdue⟩ := h halarm
  exact ⟨due, htimer, by linarith⟩

theorem serverSet_settled (strays : List ℚ) (now rate : ℚ) :
    ServerSet (ServerTimers.settled strays now rate) now := by
  intro halarm
  unfold ServerTimers.settled at halarm ⊢
  by_cases hpos : 0 < rate
  · rw [if_pos hpos]
    exact ⟨_, rfl, le_rfl⟩
  · rw [if_neg hpos] at halarm
    exact absurd halarm (by norm_num [keepAlivesUntilDeath])

theorem serverSet_reset (p : ServerTimers) (now : ℚ) : ServerSet (p.resetHeartbeatTimer now) now :=
  fun halarm => ⟨_, if_pos halarm, le_rfl⟩

theorem serverSet_add (p : ServerTimers) (now : ℚ) : ServerSet (p.addHeartbeatTimer now) now :=
  fun halarm => ⟨_, if_pos halarm, le_rfl⟩

/-- An action of the server leaves its alarm alone or sets it. -/
theorem ServerSet.acted {p : ServerTimers} {calls : List ClientConnection.Call}
    (hset : ServerSet s.server s.now) (h : s.TimersAfter p calls) : ServerSet p s.now := by
  rcases h with ⟨rate, -, rfl⟩ | ⟨-, rfl⟩ | ⟨-, rfl⟩
  · exact serverSet_settled _ _ _
  · exact hset
  · exact hset

/-- What a message does to the ends, whatever came before. -/
theorem ends_readOne_any (t : Session) (call : ServerProxy.Call) :
    (readOne t call).ends.disconnected = t.ends.disconnected ∧
      ((readOne t call).ends.stage = t.ends.stage ∨
        t.ends.stage = .unknown ∧ ∃ r : Report, call = r.call) := by
  cases call with
  | sendInfo x y w h mx my =>
    rw [readOne, show ServerProxy.onWire (.sendInfo x y w h mx my) = _ from
      Session.onWire_call ⟨x, y, w, h, mx, my⟩]
    refine ⟨rfl, ?_⟩
    by_cases hstage : t.ends.stage = .unknown
    · exact .inr ⟨hstage, ⟨x, y, w, h, mx, my⟩, rfl⟩
    · exact .inl (if_neg hstage)
  | _ => exact ⟨rfl, .inl rfl⟩

/-- A message leaves the alarm of the server alone or sets it. -/
theorem ServerSet.hears {stage : Stage} {p : ServerTimers} {now : ℚ} (h : ServerSet p now)
    (hstage : stage ≠ .unknown) (call : ServerProxy.Call) :
    ServerSet (p.hears now stage call) now := by
  cases call with
  | sendInfo =>
    rw [ServerTimers.hears_sendInfo hstage]
    exact h
  | keepAlive =>
    rw [ServerTimers.hears_keepAlive hstage]
    exact serverSet_reset p now
  | _ => exact h

theorem Armed.serverHears (h : s.Armed) (hs : s.serverHears = some s') : s'.Armed := by
  obtain ⟨call, -, -, rfl⟩ := serverHears_eq_some hs
  obtain ⟨hconn, hstage⟩ := ends_readOne_any s.session call
  refine ⟨fun hflat hknown => ?_, fun hc => h.client (hconn.symm.trans hc)⟩
  by_cases hunknown : s.session.ends.stage = .unknown
  · rcases hstage with hstage | ⟨-, r, rfl⟩
    · exact absurd (hstage.trans hunknown) hknown
    · show ServerSet (s.server.hears s.now s.session.ends.stage r.call) s.now
      rw [hunknown]
      exact serverSet_add s.server s.now
  · exact (h.server hflat hunknown).hears hunknown call

theorem Armed.serverReads {n : ℕ} (h : s.Armed) (hs : serverReads n s = some s') : s'.Armed := by
  induction n generalizing s with
  | zero =>
    cases hs
    exact ⟨fun _ _ => serverSet_reset s.server s.now, h.client⟩
  | succ n ih =>
    obtain ⟨u, hu, hs⟩ := Option.bind_eq_some_iff.1 hs
    exact ih (h.serverHears hu) hs

/-! ### The timer of the client -/

theorem ClientSet.later {p : ClientTimers} {now now' : ℚ} (h : ClientSet p now)
    (hle : now ≤ now') : ClientSet p now' := by
  intro halarm
  obtain ⟨due, htimer, hdue⟩ := h halarm
  exact ⟨due, htimer, by linarith⟩

theorem clientSet_settled (now rate : ℚ) : ClientSet (ClientTimers.settled now rate) now := by
  intro halarm
  have hpos : 0 < rate :=
    (mul_pos_iff_of_pos_right (by norm_num [keepAlivesUntilDeath])).1 halarm
  exact ⟨_, if_pos hpos, le_rfl⟩

/-- A message leaves the alarm of the client alone or sets it. -/
theorem ClientSet.hears {p : ClientTimers} {now : ℚ} (h : ClientSet p now)
    (call : ClientConnection.Call) : ClientSet (p.hears now call) now := by
  cases call with
  | keepAlive => exact fun halarm => ⟨_, if_pos halarm, le_rfl⟩
  | close msg =>
    show ClientSet (p.setKeepAliveRate now (-1)) now
    rw [ClientTimers.setKeepAliveRate_eq]
    exact clientSet_settled now (-1)
  | resetOptions =>
    show ClientSet (p.setKeepAliveRate now KeepAlive.keepAliveRate) now
    rw [ClientTimers.setKeepAliveRate_eq]
    exact clientSet_settled now _
  | setOptions options =>
    show ClientSet (p.setOptions now options) now
    rw [ClientTimers.setOptions, ClientTimers.foldl_setKeepAliveRate]
    cases (KeepAlive.heartbeats options).getLast? with
    | none => exact h
    | some rate => exact clientSet_settled now rate
  | _ => exact h

/-! ### Runs -/

theorem Armed.step {ev : Event} (h : s.Armed) (hst : s.step ev = some s') : s'.Armed := by
  cases ev with
  | pass d =>
    obtain ⟨hd, hst⟩ := Option.ite_none_right_eq_some.1 hst
    cases hst
    have hle : s.now ≤ s.now + d := le_add_of_nonneg_right hd
    exact ⟨fun hflat hstage => (h.server hflat hstage).later hle, fun hc => (h.client hc).later hle⟩
  | server act =>
    obtain ⟨-, e', calls, hacts, -, rfl⟩ := server_eq_some hst
    have hacts := acts_of_serverActs hacts
    exact ⟨fun hflat _ => (h.server hflat hacts.known).acted (timersAfter_serverTimers hacts),
      fun hc => h.client (hacts.connected.symm.trans hc)⟩
  | fileKeepAlive =>
    obtain ⟨-, e', calls, hacts, -, -, rfl⟩ := fileKeepAlive_eq_some hst
    have hacts := acts_of_serverActs hacts
    exact ⟨fun hflat _ => h.server hflat hacts.known,
      fun hc => h.client (hacts.connected.symm.trans hc)⟩
  | client act =>
    obtain ⟨e', ups, hacts, -, rfl⟩ := client_eq_some hst
    have hstage : e'.stage = s.session.ends.stage := (Session.saved_clientActs hacts).2
    exact ⟨fun hflat hknown => h.server hflat (hstage ▸ hknown),
      fun hc => h.client ((connected_clientActs hacts).symm.trans hc)⟩
  | serverReads n =>
    obtain ⟨-, hst⟩ := Option.ite_none_left_eq_some.1 hst
    exact h.serverReads hst
  | clientHears =>
    obtain ⟨hconn, call, -, -, rfl⟩ := clientHears_eq_some hst
    have hstage := (ends_hearOne s.session call).1
    exact ⟨fun hflat hknown => h.server hflat (hstage ▸ hknown),
      fun _ => (h.client hconn).hears call⟩
  | flatline =>
    obtain ⟨-, hst⟩ := Option.ite_none_right_eq_some.1 hst
    cases hst
    exact ⟨fun hflat => absurd hflat Bool.noConfusion, h.client⟩
  | alarm =>
    obtain ⟨-, hst⟩ := Option.ite_none_right_eq_some.1 hst
    cases hst
    exact ⟨h.server, fun hc => absurd hc Bool.noConfusion⟩

theorem armed_of_reachable (hs : (lts τ).Reachable s) : s.Armed := by
  refine hs.invariant (I := Armed) ?_ fun s ev s' h _ hst => h.step hst
  rintro _ ⟨screen, since, -, -, hsince, rfl⟩
  refine ⟨fun _ hknown => absurd rfl hknown, fun _ => ?_⟩
  show ClientSet ((ClientTimers.mk 0 none).setKeepAliveRate since KeepAlive.keepAliveRate) 0
  rw [ClientTimers.setKeepAliveRate_eq]
  exact (clientSet_settled since _).later hsince

/-! ### Silence -/

/-- The server gets no sign of life: it reads nothing and sends no options. -/
def silentForServer : Event → Prop
  | .serverReads _ | .server (.accept ..) => False
  | .server (.relay call) => rateSet call = none
  | _ => True

/-- The client gets no sign of life. -/
def silentForClient : Event → Prop
  | .clientHears => False
  | _ => True

instance : ∀ ev, Decidable (silentForServer ev)
  | .serverReads _ | .server (.accept ..) => .isFalse id
  | .server (.relay call) => inferInstanceAs (Decidable (rateSet call = none))
  | .server .keepAlive | .server (.refuse _) | .server .close | .pass _ | .fileKeepAlive
  | .client _ | .clientHears | .flatline | .alarm => .isTrue trivial

instance : ∀ ev, Decidable (silentForClient ev)
  | .clientHears => .isFalse id
  | .pass _ | .server _ | .fileKeepAlive | .client _ | .serverReads _ | .flatline | .alarm =>
    .isTrue trivial

/-- The client has given up, or its alarm is set and the time is before `limit`. -/
def ClientWaits (due limit : ℚ) (s : TimedSession) : Prop :=
  s.session.ends.disconnected = true ∨ s.client.keepAliveAlarmTimer = some due ∧ s.now ≤ limit

def ServerWaits (due limit : ℚ) (s : TimedSession) : Prop :=
  s.flatlined = true ∨ s.session.ends.stage ≠ .unknown ∧
    s.server.heartbeatTimer = some due ∧ s.now ≤ limit

theorem serverReads_client {n : ℕ} (hs : serverReads n s = some s') :
    s'.client = s.client ∧ s'.now = s.now ∧
      s'.session.ends.disconnected = s.session.ends.disconnected := by
  induction n generalizing s with
  | zero =>
    cases hs
    exact ⟨rfl, rfl, rfl⟩
  | succ n ih =>
    obtain ⟨u, hu, hs⟩ := Option.bind_eq_some_iff.1 hs
    obtain ⟨call, -, -, rfl⟩ := serverHears_eq_some hu
    obtain ⟨hclient, hnow, hconn⟩ := ih hs
    exact ⟨hclient, hnow, hconn.trans (ends_readOne_any s.session call).1⟩

theorem ClientWaits.step {due limit : ℚ} {ev : Event} (h : s.ClientWaits due limit)
    (hlimit : due + τ.lag ≤ limit) (hprompt : Prompt τ s ev) (hsilent : silentForClient ev)
    (hst : s.step ev = some s') : s'.ClientWaits due limit := by
  cases ev with
  | pass d =>
    obtain ⟨hd, hst⟩ := Option.ite_none_right_eq_some.1 hst
    cases hst
    -- time passes only up to the lag behind an alarm that is due
    rcases h with h | ⟨htimer, -⟩
    · exact .inl h
    · exact .inr ⟨htimer, (hprompt.2 due htimer).trans hlimit⟩
  | server act =>
    obtain ⟨-, e', calls, hacts, -, rfl⟩ := server_eq_some hst
    exact h.imp_left (acts_of_serverActs hacts).connected.trans
  | fileKeepAlive =>
    obtain ⟨-, e', calls, hacts, -, -, rfl⟩ := fileKeepAlive_eq_some hst
    exact h.imp_left (acts_of_serverActs hacts).connected.trans
  | client act =>
    obtain ⟨e', ups, hacts, -, rfl⟩ := client_eq_some hst
    exact h.imp_left (connected_clientActs hacts).trans
  | serverReads n =>
    obtain ⟨-, hst⟩ := Option.ite_none_left_eq_some.1 hst
    obtain ⟨hclient, hnow, hconn⟩ := serverReads_client hst
    rw [ClientWaits, hclient, hnow, hconn]
    exact h
  -- the one event that would set the alarm anew
  | clientHears => exact hsilent.elim
  | flatline =>
    obtain ⟨-, hst⟩ := Option.ite_none_right_eq_some.1 hst
    cases hst
    exact h
  | alarm =>
    obtain ⟨-, hst⟩ := Option.ite_none_right_eq_some.1 hst
    cases hst
    exact .inl rfl

/-- An action that gives the server no sign of life leaves its alarm alone. -/
theorem heartbeatTimer_of_silent {e e' : Session.Ends} {act : ServerAct}
    {calls : List ClientConnection.Call} (h : e.serverActs act = some (e', calls))
    (hsilent : silentForServer (.server act)) :
    (s.serverTimers act calls).heartbeatTimer = s.server.heartbeatTimer := by
  have hnone : calls.filterMap rateSet = [] := by
    cases act with
    | accept => exact hsilent.elim
    | keepAlive | refuse | close =>
      obtain ⟨-, h⟩ := Option.ite_none_right_eq_some.1 h
      cases h
      rfl
    | relay call =>
      obtain ⟨-, h⟩ := Option.ite_none_right_eq_some.1 h
      cases h
      rw [List.filterMap_cons, show rateSet call = none from hsilent, List.filterMap_nil]
  rcases timersAfter_serverTimers (s := s) (acts_of_serverActs h) with ⟨rate, hlast, -⟩ |
      ⟨-, htimers⟩ | ⟨-, htimers⟩
  · rw [hnone] at hlast
    cases hlast
  · rw [htimers]
    rfl
  · rw [htimers]

theorem ServerWaits.step {due limit : ℚ} {ev : Event} (h : s.ServerWaits due limit)
    (hlimit : due + τ.lag ≤ limit) (hprompt : Prompt τ s ev) (hsilent : silentForServer ev)
    (hst : s.step ev = some s') : s'.ServerWaits due limit := by
  cases ev with
  | pass d =>
    obtain ⟨hd, hst⟩ := Option.ite_none_right_eq_some.1 hst
    cases hst
    rcases Bool.eq_false_or_eq_true s.flatlined with hflat | hflat
    · exact .inl hflat
    · rcases h with h | ⟨hstage, htimer, -⟩
      · exact .inl h
      · exact .inr ⟨hstage, htimer, (hprompt.1 hflat due htimer).trans hlimit⟩
  | server act =>
    obtain ⟨-, e', calls, hacts, -, rfl⟩ := server_eq_some hst
    refine h.imp_right fun hwaits => ⟨(acts_of_serverActs hacts).known', ?_, hwaits.2.2⟩
    exact (heartbeatTimer_of_silent hacts hsilent).trans hwaits.2.1
  | fileKeepAlive =>
    obtain ⟨-, e', calls, hacts, -, -, rfl⟩ := fileKeepAlive_eq_some hst
    exact h.imp_right fun hwaits => ⟨(acts_of_serverActs hacts).known', hwaits.2⟩
  | client act =>
    obtain ⟨e', ups, hacts, -, rfl⟩ := client_eq_some hst
    have hstage : e'.stage = s.session.ends.stage := (Session.saved_clientActs hacts).2
    refine h.imp_right fun hwaits => ⟨fun hunknown => ?_, hwaits.2⟩
    exact hwaits.1 (hstage.symm.trans hunknown)
  -- the one event that would set the alarm anew, besides options
  | serverReads n => exact hsilent.elim
  | clientHears =>
    obtain ⟨-, call, -, -, rfl⟩ := clientHears_eq_some hst
    have hstage := (ends_hearOne s.session call).1
    refine h.imp_right fun hwaits => ⟨fun hunknown => ?_, hwaits.2⟩
    exact hwaits.1 (hstage.symm.trans hunknown)
  | flatline =>
    obtain ⟨-, hst⟩ := Option.ite_none_right_eq_some.1 hst
    cases hst
    exact .inl rfl
  | alarm =>
    obtain ⟨-, hst⟩ := Option.ite_none_right_eq_some.1 hst
    cases hst
    exact h

/-- **Silence is noticed.**  In every run in which alarms are handled within the lag, an end with an
alarm that gets no sign of life from some state on gives up, or no more time has passed since then
than an alarm and the lag.  Nothing is assumed about what is delayed or lost. -/
theorem silence_noticed {ls : List Event} (hs : (lts τ).Reachable s)
    (hadm : (lts τ).Admits (Prompt τ) s ls) (he : (lts τ).exec s ls = some s') :
    ((∀ ev ∈ ls, silentForClient ev) → 0 < s.client.keepAliveAlarm →
      s'.session.ends.disconnected = true ∨ s'.now ≤ s.now + s.client.keepAliveAlarm + τ.lag) ∧
    ((∀ ev ∈ ls, silentForServer ev) → s.session.ends.stage ≠ .unknown →
      0 < s.server.heartbeatAlarm →
      s'.flatlined = true ∨ s'.now ≤ s.now + s.server.heartbeatAlarm + τ.lag) := by
  have harmed := armed_of_reachable hs
  have hlag := τ.lag_nonneg
  refine ⟨fun hsilent halarm => ?_, fun hsilent hstage halarm => ?_⟩
  · -- the client: from an alarm that is due in time, the wait is kept step by step
    have hwaits : ∃ due, due + τ.lag ≤ s.now + s.client.keepAliveAlarm + τ.lag ∧
        s.ClientWaits due (s.now + s.client.keepAliveAlarm + τ.lag) := by
      rcases Bool.eq_false_or_eq_true s.session.ends.disconnected with hconn | hconn
      · exact ⟨s.now + s.client.keepAliveAlarm, le_rfl, .inl hconn⟩
      · obtain ⟨due, htimer, hdue⟩ := harmed.client hconn halarm
        exact ⟨due, by linarith, .inr ⟨htimer, by linarith⟩⟩
    obtain ⟨due, hlimit, hwaits⟩ := hwaits
    have hquiet := LTS.admits_of_forall (A := lts τ) (fun ev hev _ => hsilent ev hev) s
    have hend := LTS.exec_invariant hwaits (hadm.and hquiet) he fun s ev s' h hadm hst =>
      h.step hlimit hadm.1 hadm.2 hst
    exact hend.imp_right And.right
  · -- the server, in the same way
    have hwaits : ∃ due, due + τ.lag ≤ s.now + s.server.heartbeatAlarm + τ.lag ∧
        s.ServerWaits due (s.now + s.server.heartbeatAlarm + τ.lag) := by
      rcases Bool.eq_false_or_eq_true s.flatlined with hflat | hflat
      · exact ⟨s.now + s.server.heartbeatAlarm, le_rfl, .inl hflat⟩
      · obtain ⟨due, htimer, hdue⟩ := harmed.server hflat hstage halarm
        exact ⟨due, by linarith, .inr ⟨hstage, htimer, by linarith⟩⟩
    obtain ⟨due, hlimit, hwaits⟩ := hwaits
    have hquiet := LTS.admits_of_forall (A := lts τ) (fun ev hev _ => hsilent ev hev) s
    have hend := LTS.exec_invariant hwaits (hadm.and hquiet) he fun s ev s' h hadm hst =>
      h.step hlimit hadm.1 hadm.2 hst
    exact hend.imp_right fun h => h.2.2

/-- From the adoption on nothing arrives, though a clipboard is sent. -/
def cutOff : List Event :=
  [.fileKeepAlive, .pass 8, .flatline, .pass 1, .alarm, .pass 100]

theorem silence_noticed_cutOff : ∃ s s',
    (lts wideBounds).exec (start fullHD 0) (adoption []) = some s ∧
    (lts wideBounds).exec s cutOff = some s' ∧
    s'.session.ends.disconnected = true ∧ s'.flatlined = true := by
  have hrun : ((lts wideBounds).exec (start fullHD 0) (adoption [])).map (fun s =>
      (decide ((lts wideBounds).Admits (Prompt wideBounds) s cutOff),
        ((lts wideBounds).exec s cutOff).map TimedSession.now, s.session.ends.stage, s.now,
        s.client.keepAliveAlarm, s.server.heartbeatAlarm)) =
      some (true, some 112, .adopted, 3, 9, 9) := by
    decide +kernel
  obtain ⟨s, hs, hfacts⟩ := Option.map_eq_some_iff.1 hrun
  simp only [Prod.mk.injEq, decide_eq_true_eq] at hfacts
  obtain ⟨hadm, hend, hstage, hnow, hclient, hserver⟩ := hfacts
  obtain ⟨s', hs', hnow'⟩ := Option.map_eq_some_iff.1 hend
  have hreach : (lts wideBounds).Reachable s := by
    refine .of_exec ⟨fullHD, 0, by decide, by decide +kernel, le_rfl, rfl⟩ hs
  have h := silence_noticed hreach hadm hs'
  rw [hnow, hnow', hclient, hserver] at h
  refine ⟨s, s', hs, hs', ?_, ?_⟩
  · rcases h.1 (by decide) (by norm_num) with h | h
    · exact h
    · exact absurd h (by decide +kernel)
  · rcases h.2 (by decide) (by rw [hstage]; decide) (by norm_num) with h | h
    · exact h
    · exact absurd h (by decide +kernel)

end TimedSession

end InputLeap
