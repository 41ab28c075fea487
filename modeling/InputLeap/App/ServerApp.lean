import InputLeap.LTS.Basic
import Mathlib.Data.List.Nodup
import Mathlib.Tactic.SplitIfs

/-!
# Suspending and resuming the server

Closing the server waits in an event loop of its own for the clients to go.  The notifications of
the system are handled in that loop too, so a handler may start while another one waits.

## Main definitions

* `ServerApp` : the members, the loops that wait, and what happened to the servers so far.
* `ServerApp.step` : one notification, one try to start again, or the end of the innermost loop.
* `ServerApp.Good` : servers are closed and destroyed once, none is used afterwards, and outside
  of all handlers the server is started unless it is suspended.
* `ServerApp.Calm` : no suspension while the loop of one that is over still waits, and every start
  succeeds.

## Main results

* `ServerApp.good_of_reachableVia` : calm runs are good, and the first step that is not calm is
  not good.
-/

namespace InputLeap

/-- `EServerState`. -/
inductive ServerState
  | uninitialized
  | initializing
  | initializingToStart
  | initialized
  | starting
  | started
  deriving DecidableEq

/-- What becomes of the screen that is opened. -/
inductive ScreenOutcome
  | opened
  /-- `XScreenUnavailable`. -/
  | unavailable
  | failed
  deriving DecidableEq

/-- What becomes of the listener that is opened. -/
inductive ListenerOutcome
  | opened
  /-- `XSocketAddressInUse`. -/
  | addressInUse
  | failed
  deriving DecidableEq

/-- The answers of the system when the server is started. -/
structure StartEnv where
  screen : ScreenOutcome := .opened
  listener : ListenerOutcome := .opened
  deriving DecidableEq

/-- A server object. -/
abbrev ServerID := ℕ

/-- The application.  The last four members are not kept by the program. -/
structure ServerApp where
  restartable : Bool
  serverState : ServerState := .uninitialized
  server : Option ServerID := none
  listener : Bool := false
  /-- The timer of the next try runs. -/
  timer : Bool := false
  suspended : Bool := false
  /-- The next server object. -/
  next : ServerID := 0
  /-- The servers whose `closeServer` waits in its loop, innermost first. -/
  loops : List ServerID := []
  closed : List ServerID := []
  destroyed : List ServerID := []
  /-- A server was used that was destroyed. -/
  usedDestroyed : Bool := false

namespace ServerApp

variable (a : ServerApp)

/-- Uses a server object. -/
def use (id : ServerID) : ServerApp :=
  { a with usedDestroyed := a.usedDestroyed || id ∈ a.destroyed }

/-- Destroys the server, if there is one. -/
def resetServer : ServerApp :=
  match a.server with
  | some id => { a with server := none, destroyed := id :: a.destroyed }
  | none => a

def stopRetryTimer : ServerApp := { a with timer := false }

/-- Tries again later, if it may. -/
def retryLater (state : ServerState) : Bool × ServerApp :=
  if a.restartable then (true, { a with timer := true, serverState := state }) else (false, a)

/-- Opens the screen. -/
def initServer (env : StartEnv) : Bool × ServerApp :=
  if a.serverState ≠ .uninitialized then (true, a)
  else
    match env.screen with
    | .opened => (true, { a with serverState := .initialized })
    | .unavailable => a.retryLater .initializing
    | .failed => (false, a)

/-- Opens the listener and makes the server. -/
def openServer (env : StartEnv) : Bool × ServerApp :=
  match env.listener with
  | .opened => (true, { a.resetServer with
      server := some a.next, listener := true, next := a.next + 1, serverState := .started })
  | .addressInUse => a.retryLater .starting
  | .failed => (false, a)

def startServer (env : StartEnv) : Bool × ServerApp :=
  if a.serverState = .starting ∨ a.serverState = .started then (true, a)
  else if a.serverState ≠ .initialized then
    match a.initServer env with
    | (false, a) => (false, a)
    | (true, a) =>
      if a.serverState = .initializing then
        (true, { a with serverState := .initializingToStart })
      else a.openServer env
  else a.openServer env

/-- `closeServer` up to its loop. -/
def closeServer (id : ServerID) : ServerApp :=
  { a.use id with closed := id :: a.closed, loops := id :: a.loops }

/-- `stopServer` once the server is closed. -/
def serverClosed : ServerApp :=
  { a.resetServer with listener := false, serverState := .initialized }

/-- `handle_suspend` once the server is stopped. -/
def serverStopped (env : StartEnv) : ServerApp :=
  if a.suspended then a else (a.startServer env).2

/-- Handles the notification, up to the loop of `closeServer` if there is a server to close. -/
def handleSuspend (env : StartEnv) : ServerApp :=
  if a.suspended then a
  else
    let a := { a with suspended := true }
    match a.serverState, a.server with
    | .started, some id => a.closeServer id
    | .started, none => a.serverClosed.serverStopped env
    | .starting, _ =>
      { a.stopRetryTimer with serverState := .initialized }.serverStopped env
    | _, _ => a.serverStopped env

/-- The innermost loop ends: the handlers on the server are removed and the suspension goes on. -/
def handleLoopEnd (env : StartEnv) : Option ServerApp :=
  match a.loops with
  | [] => none
  | id :: loops => some (({ a with loops := loops }.use id).serverClosed.serverStopped env)

def handleResume (env : StartEnv) : ServerApp :=
  if a.suspended then { (a.startServer env).2 with suspended := false } else a

/-- The timer fired. -/
def handleRetry (env : StartEnv) : ServerApp :=
  let a := a.stopRetryTimer
  match a.serverState with
  | .initializing => ({ a with serverState := .uninitialized }.initServer env).2
  | .initializingToStart =>
    let (ok, a) := { a with serverState := .uninitialized }.initServer env
    if ok && a.serverState = .initialized then (a.startServer env).2 else a
  | .starting => ({ a with serverState := .initialized }.startServer env).2
  | _ => a

/-- What can happen. -/
inductive Event
  | suspend
  | resume
  | retry
  | loopEnd
  deriving DecidableEq

def step (env : StartEnv) : Event → Option ServerApp
  | .suspend => some (a.handleSuspend env)
  | .resume => some (a.handleResume env)
  | .retry => if a.timer then some (a.handleRetry env) else none
  | .loopEnd => a.handleLoopEnd env

/-- The application whose server was started. -/
def create (restartable : Bool) : ServerApp :=
  (({ restartable := restartable } : ServerApp).startServer {}).2

/-- The notifications in any order, in the main loop and in the loops that wait. -/
def lts : LTS ServerApp (StartEnv × Event) where
  init a := ∃ restartable, a = create restartable
  step a l := a.step l.1 l.2

/-- Servers are closed and destroyed once and are not used afterwards.  Outside of all handlers
the server is started unless it is suspended. -/
structure Good : Prop where
  closed : a.closed.Nodup
  destroyed : a.destroyed.Nodup
  used : a.usedDestroyed = false
  started : a.loops = [] → (a.serverState = .started ↔ a.suspended = false)

/-- The code depends on this: in the loop of a suspension that is over no new one begins, and
when the server is started again its listener can be opened. -/
def Calm (l : StartEnv × Event) : Prop :=
  match l.2 with
  | .suspend => a.loops ≠ [] → a.suspended = true
  | .resume => a.loops = [] → a.suspended = true → l.1.listener = .opened
  | .loopEnd => a.suspended = false → l.1.listener = .opened
  | .retry => True

instance : ∀ l : StartEnv × Event, Decidable (a.Calm l)
  | (_, .suspend) => inferInstanceAs (Decidable (_ → _))
  | (_, .resume) => inferInstanceAs (Decidable (_ → _ → _))
  | (_, .loopEnd) => inferInstanceAs (Decidable (_ → _))
  | (_, .retry) => inferInstanceAs (Decidable True)

/-! ### The three phases of a calm run -/

/-- What is noted about the servers is in order. -/
structure Ledger : Prop where
  closed : a.closed.Nodup
  destroyed : a.destroyed.Nodup
  used : a.usedDestroyed = false
  closed_lt : ∀ id ∈ a.closed, id < a.next
  destroyed_lt : ∀ id ∈ a.destroyed, id < a.next

/-- No handler waits and the server is started. -/
structure Running : Prop where
  state : a.serverState = .started
  loops : a.loops = []
  suspended : a.suspended = false
  server : ∃ id, a.server = some id ∧ id ∉ a.closed ∧ id ∉ a.destroyed ∧ id < a.next

/-- One handler waits in the loop of `closeServer`. -/
structure Closing : Prop where
  state : a.serverState = .started
  server : ∃ id, a.server = some id ∧ a.loops = [id] ∧ id ∈ a.closed ∧ id ∉ a.destroyed

/-- No handler waits and the server is stopped. -/
structure Stopped : Prop where
  state : a.serverState = .initialized
  loops : a.loops = []
  suspended : a.suspended = true
  server : a.server = none

/-- Where a calm run is between two events. -/
structure Inv : Prop where
  ledger : a.Ledger
  timer : a.timer = false
  phase : a.Running ∨ a.Closing ∨ a.Stopped

variable {a} {a' : ServerApp} {env : StartEnv}

theorem Ledger.good (h : a.Ledger)
    (hstarted : a.loops = [] → (a.serverState = .started ↔ a.suspended = false)) : a.Good :=
  ⟨h.closed, h.destroyed, h.used, hstarted⟩

theorem Inv.good (h : a.Inv) : a.Good := by
  refine h.ledger.good fun hloops => ?_
  obtain hrun | hclose | hstop := h.phase
  · simp [hrun.state, hrun.suspended]
  · obtain ⟨id, -, hwaits, -⟩ := hclose.server
    rw [hloops] at hwaits
    cases hwaits
  · simp [hstop.state, hstop.suspended]

/-- Opening the listener decides what a start comes to while the server is stopped. -/
theorem startServer_stopped (hstate : a.serverState = .initialized) :
    (a.startServer env).2 = (a.openServer env).2 := by
  simp [startServer, hstate]

theorem startServer_started (hstate : a.serverState = .started) :
    (a.startServer env).2 = a := by
  simp [startServer, hstate]

theorem suspended_openServer (a : ServerApp) (env : StartEnv) :
    (a.openServer env).2.suspended = a.suspended := by
  unfold openServer retryLater resetServer
  cases env.listener with
  | opened => cases a.server <;> rfl
  | addressInUse =>
    dsimp only
    split_ifs <;> rfl
  | failed => rfl

theorem set_suspended (h : a.suspended = false) : a = { a with suspended := false } := by
  cases a
  cases h
  rfl

/-- A start that succeeds, while nothing waits. -/
theorem inv_openServer (hledger : a.Ledger) (htimer : a.timer = false) (hloops : a.loops = [])
    (hserver : a.server = none) (hopen : env.listener = .opened) :
    Inv { (a.openServer env).2 with suspended := false } := by
  have hreset : a.resetServer = a := by simp [resetServer, hserver]
  simp only [openServer, hopen, hreset]
  refine ⟨⟨hledger.closed, hledger.destroyed, hledger.used, ?_, ?_⟩, htimer, .inl ?_⟩
  · exact fun id hid => Nat.lt_succ_of_lt (hledger.closed_lt id hid)
  · exact fun id hid => Nat.lt_succ_of_lt (hledger.destroyed_lt id hid)
  · refine ⟨rfl, hloops, rfl, a.next, rfl, fun hid => ?_, fun hid => ?_, Nat.lt_succ_self _⟩
    · exact Nat.lt_irrefl _ (hledger.closed_lt _ hid)
    · exact Nat.lt_irrefl _ (hledger.destroyed_lt _ hid)

/-- A start that fails leaves the server stopped. -/
theorem not_good_openServer (hstate : a.serverState = .initialized) (hloops : a.loops = [])
    (hopen : env.listener ≠ .opened) :
    ¬Good { (a.openServer env).2 with suspended := false } := by
  intro hgood
  have hstarted := hgood.started
  cases hlistener : env.listener with
  | opened => exact hopen hlistener
  | addressInUse =>
    simp only [openServer, hlistener, retryLater] at hstarted
    split_ifs at hstarted <;> simp [hloops, hstate] at hstarted
  | failed => simp [openServer, hlistener, hloops, hstate] at hstarted

/-- The event leads to `a'`, which is in order if the event is calm and is not good otherwise. -/
def Decides (a : ServerApp) (l : StartEnv × Event) (a' : ServerApp) : Prop :=
  (a.Calm l → a'.Inv) ∧ (¬a.Calm l → ¬a'.Good)

/-- Starting again, once the server is stopped and nothing waits. -/
theorem decides_start {a₀ : ServerApp} {l : StartEnv × Event} (hledger : a.Ledger)
    (htimer : a.timer = false) (hstate : a.serverState = .initialized) (hloops : a.loops = [])
    (hserver : a.server = none) (hcalm : a₀.Calm l ↔ l.1.listener = .opened) :
    a₀.Decides l { (a.startServer l.1).2 with suspended := false } := by
  rw [startServer_stopped hstate]
  constructor
  · intro hc
    exact inv_openServer hledger htimer hloops hserver (hcalm.1 hc)
  · intro hc
    exact not_good_openServer hstate hloops fun hopen => hc (hcalm.2 hopen)

theorem decides_running (h : a.Inv) (hrun : a.Running) {e : Event}
    (hst : a.step env e = some a') : a.Decides (env, e) a' := by
  obtain ⟨id, hserver, hclosed, hdestroyed, hlt⟩ := hrun.server
  cases e with
  | suspend =>
    obtain rfl := Option.some.inj hst
    have hto : a.handleSuspend env =
        { a with suspended := true, closed := id :: a.closed, loops := [id] } := by
      simp [handleSuspend, hrun.suspended, hrun.state, hserver, closeServer, use, hdestroyed,
        hrun.loops]
    refine ⟨fun _ => ?_, fun hc => absurd (fun hne => absurd hrun.loops hne) hc⟩
    rw [hto]
    refine ⟨⟨List.nodup_cons.2 ⟨hclosed, h.ledger.closed⟩, h.ledger.destroyed, h.ledger.used,
      ?_, h.ledger.destroyed_lt⟩, h.timer, .inr (.inl ?_)⟩
    · rintro id' (_ | ⟨_, hid⟩)
      · exact hlt
      · exact h.ledger.closed_lt id' hid
    · exact ⟨hrun.state, id, hserver, rfl, List.mem_cons_self, hdestroyed⟩
  | resume =>
    obtain rfl := Option.some.inj hst
    have hto : a.handleResume env = a := by simp [handleResume, hrun.suspended]
    rw [hto]
    refine ⟨fun _ => h, fun hc => absurd (fun _ hs => ?_) hc⟩
    rw [hrun.suspended] at hs
    cases hs
  | retry => simp [step, h.timer] at hst
  | loopEnd => simp [step, handleLoopEnd, hrun.loops] at hst

theorem decides_stopped (h : a.Inv) (hstop : a.Stopped) {e : Event}
    (hst : a.step env e = some a') : a.Decides (env, e) a' := by
  cases e with
  | suspend =>
    obtain rfl := Option.some.inj hst
    have hto : a.handleSuspend env = a := by simp [handleSuspend, hstop.suspended]
    rw [hto]
    exact ⟨fun _ => h, fun hc => absurd (fun hne => absurd hstop.loops hne) hc⟩
  | resume =>
    obtain rfl := Option.some.inj hst
    have hto : a.handleResume env = { (a.startServer env).2 with suspended := false } := by
      simp [handleResume, hstop.suspended]
    rw [hto]
    refine decides_start h.ledger h.timer hstop.state hstop.loops hstop.server ?_
    exact ⟨fun hc => hc hstop.loops hstop.suspended, fun hopen _ _ => hopen⟩
  | retry => simp [step, h.timer] at hst
  | loopEnd => simp [step, handleLoopEnd, hstop.loops] at hst

theorem decides_closing (h : a.Inv) (hclose : a.Closing) {e : Event}
    (hst : a.step env e = some a') : a.Decides (env, e) a' := by
  obtain ⟨id, hserver, hloops, hclosed, hdestroyed⟩ := hclose.server
  cases e with
  | suspend =>
    obtain rfl := Option.some.inj hst
    cases hsuspended : a.suspended with
    | true =>
      have hto : a.handleSuspend env = a := by simp [handleSuspend, hsuspended]
      rw [hto]
      exact ⟨fun _ => h, fun hc => absurd (fun _ => hsuspended) hc⟩
    | false =>
      -- the server that is closing is closed again
      have hto : (a.handleSuspend env).closed = id :: a.closed := by
        simp [handleSuspend, hsuspended, hclose.state, hserver, closeServer]
      refine ⟨fun hc => ?_, fun _ hgood => ?_⟩
      · have hs : a.suspended = true := hc (by simp [hloops])
        rw [hsuspended] at hs
        cases hs
      · have hnodup := hgood.closed
        rw [hto] at hnodup
        exact (List.nodup_cons.1 hnodup).1 hclosed
  | resume =>
    obtain rfl := Option.some.inj hst
    refine ⟨fun _ => ?_, fun hc => absurd (fun hnil => ?_) hc⟩
    · unfold handleResume
      split
      · rw [startServer_started hclose.state]
        refine ⟨⟨h.ledger.closed, h.ledger.destroyed, h.ledger.used, h.ledger.closed_lt,
          h.ledger.destroyed_lt⟩, h.timer, .inr (.inl ⟨hclose.state, ?_⟩)⟩
        exact ⟨id, hserver, hloops, hclosed, hdestroyed⟩
      · exact h
    · rw [hloops] at hnil
      cases hnil
  | retry => simp [step, h.timer] at hst
  | loopEnd =>
    -- the server is destroyed
    let b : ServerApp :=
      { a with
        loops := [], server := none, destroyed := id :: a.destroyed, listener := false
        serverState := .initialized }
    have hto : a' = b.serverStopped env := by
      have hend : a.handleLoopEnd env = some (b.serverStopped env) := by
        simp [handleLoopEnd, hloops, use, hdestroyed, serverClosed, resetServer, hserver, b]
      exact Option.some.inj (hst.symm.trans hend)
    have hledger : b.Ledger := by
      refine ⟨h.ledger.closed, List.nodup_cons.2 ⟨hdestroyed, h.ledger.destroyed⟩, h.ledger.used,
        h.ledger.closed_lt, ?_⟩
      rintro id' (_ | ⟨_, hid⟩)
      · exact h.ledger.closed_lt id hclosed
      · exact h.ledger.destroyed_lt id' hid
    rw [hto]
    cases hsuspended : a.suspended with
    | true =>
      have hstay : b.serverStopped env = b := by simp [serverStopped, b, hsuspended]
      rw [hstay]
      refine ⟨fun _ => ⟨hledger, h.timer, .inr (.inr ⟨rfl, rfl, hsuspended, rfl⟩)⟩, fun hc => ?_⟩
      refine absurd (fun hs => ?_) hc
      rw [hsuspended] at hs
      cases hs
    | false =>
      have hstart : b.serverStopped env = { (b.startServer env).2 with suspended := false } := by
        have hb : b.serverStopped env = (b.startServer env).2 := by
          simp [serverStopped, b, hsuspended]
        rw [hb, startServer_stopped rfl]
        exact set_suspended ((suspended_openServer b env).trans hsuspended)
      rw [hstart]
      refine decides_start hledger h.timer rfl rfl rfl ?_
      exact ⟨fun hc => hc hsuspended, fun hopen _ => hopen⟩

/-- One event of a run that was calm so far. -/
theorem Inv.decides (h : a.Inv) {l : StartEnv × Event} (hst : lts.step a l = some a') :
    a.Decides l a' := by
  obtain ⟨env, e⟩ := l
  obtain hrun | hclose | hstop := h.phase
  · exact decides_running h hrun hst
  · exact decides_closing h hclose hst
  · exact decides_stopped h hstop hst

theorem inv_create (restartable : Bool) : (create restartable).Inv := by
  refine ⟨⟨List.nodup_nil, List.nodup_nil, rfl, by rintro _ ⟨⟩, by rintro _ ⟨⟩⟩, rfl, .inl ?_⟩
  exact ⟨rfl, rfl, rfl, 0, rfl, by rintro ⟨⟩, by rintro ⟨⟩, Nat.zero_lt_one⟩

theorem inv_of_reachableVia (ha : lts.ReachableVia Calm a) : a.Inv := by
  refine ha.invariant ?_ fun a l a' h hcalm hst => (h.decides hst).1 hcalm
  rintro _ ⟨restartable, rfl⟩
  exact inv_create restartable

/-- Throughout calm runs servers are closed and destroyed once, none is used afterwards, and
outside of all handlers the server is started unless it is suspended.  The first event that is not
calm ends this. -/
theorem good_of_reachableVia (ha : lts.ReachableVia Calm a) :
    a.Good ∧ ∀ l a', lts.step a l = some a' → (a'.Good ↔ a.Calm l) := by
  have h : a.Inv := inv_of_reachableVia ha
  refine ⟨h.good, fun l a' hst => ⟨fun hgood => ?_, fun hcalm => ?_⟩⟩
  · by_contra hcalm
    exact (h.decides hst).2 hcalm hgood
  · exact ((h.decides hst).1 hcalm).good

/-- Notifications that arrive with nothing to refuse the listener. -/
def quietly (events : List Event) : List (StartEnv × Event) := events.map fun e => ({}, e)

/-- The system sleeps and wakes up while the server is closed. -/
theorem good_resume_closing : ∃ a : ServerApp, (a.destroyed = [0] ∧ a.server = some 1) ∧ a.Good ∧
    ∀ l a', lts.step a l = some a' → (a'.Good ↔ a.Calm l) := by
  have hrun : (lts.exec (create true) (quietly [.suspend, .resume, .loopEnd])).map
      (fun a => (a.destroyed, a.server)) = some ([0], some 1) := by decide +kernel
  obtain ⟨a, ha, hpair⟩ := Option.map_eq_some_iff.1 hrun
  have hreach : lts.ReachableVia Calm a := .of_exec (.init ⟨true, rfl⟩) (by decide +kernel) ha
  exact ⟨a, Prod.mk.inj hpair, good_of_reachableVia hreach⟩

/-- When the system sleeps again in that time, the server is closed twice, and the first loop
removes its handlers from a server that the second suspension destroyed. -/
theorem not_good_of_reachable :
    ¬∀ a : ServerApp, lts.Reachable a → a.Good := by
  intro h
  have hrun : (lts.exec (create true)
      (quietly [.suspend, .resume, .suspend, .loopEnd, .loopEnd])).map
      (fun a => (a.usedDestroyed, decide a.closed.Nodup)) = some (true, false) := by decide +kernel
  obtain ⟨a, ha, hpair⟩ := Option.map_eq_some_iff.1 hrun
  have hused := (h a (.of_exec ⟨true, rfl⟩ ha)).used
  rw [(Prod.mk.inj hpair).1] at hused
  cases hused

end ServerApp

end InputLeap
