import InputLeap.App.ServerApp

/-!
# Quit events and the loops that take them

The program ends when its event loop takes a quit event.  The loop in which `closeServer` waits for
the clients to go ends in the same way: the handlers of its timer and of the server's disconnection
add a quit event of their own.  Both loops take their events from one queue.

## Main definitions

* `AppLoops` : the application with the event queue and the clients of its server.
* `AppLoops.step` : one event that comes, one that is taken from the queue, or a timer.
* `AppLoops.Faithful` : the quit events in the queue are the requests that wait, beside the one that
  ends the loop of `closeServer`.
* `AppLoops.Careful` : each loop of `closeServer` handles one of its two notices, before it takes a
  quit event.

## Main results

* `AppLoops.loops_faithful_of_reachable` : careful runs neither lose a request to quit nor invent
  one.
* `AppLoops.not_loops_faithful_of_reachable` : not all runs are faithful.
-/

namespace InputLeap

/-- An event in the queue. -/
inductive QueuedEvent
  | quit
  /-- `SCREEN_SUSPEND`. -/
  | suspend
  /-- `SCREEN_RESUME`. -/
  | resume
  /-- `SERVER_DISCONNECTED` with the address of the server. -/
  | serverDisconnected (server : ℕ)
  /-- A client connects that the server accepts or turns away. -/
  | clientConnected (client : ℕ) (accepted : Bool)
  | clientDisconnected (client : ℕ)
  deriving DecidableEq, Repr

/-- What the system answers when a server is made. -/
structure LoopEnv where
  start : StartEnv := {}
  /-- Where the server object is put. -/
  address : ℕ := 0
  deriving DecidableEq

/-- The application and its event queue.  The last two members are not kept by the program. -/
structure AppLoops where
  app : ServerApp
  /-- The oldest event first. -/
  queue : List QueuedEvent := []
  /-- Where the server is. -/
  address : ℕ := 0
  /-- The clients of the server. -/
  clients : List ℕ := []
  /-- The clients that it closes. -/
  oldClients : List ℕ := []
  /-- The servers for whose disconnection a `closeServer` has set its handler. -/
  awaited : List ℕ := []
  /-- The server and the state of the timer for each `closeServer` that waits, innermost first. -/
  waits : List (ℕ × Bool) := []
  /-- The main loop has taken a quit event. -/
  ended : Bool := false
  /-- How many quit events came that `closeServer` did not add. -/
  requested : ℕ := 0
  /-- How many notices the innermost `closeServer` has handled. -/
  notices : ℕ := 0

namespace AppLoops

variable (w : AppLoops)

/-- Adds the event to the queue. -/
def addEvent (e : QueuedEvent) : AppLoops := { w with queue := w.queue ++ [e] }

/-- The handler of both notices of `closeServer`. -/
def handleClientsDisconnected : AppLoops :=
  { w.addEvent .quit with notices := w.notices + 1 }

/-- `Server::disconnect`. -/
def disconnect : AppLoops :=
  if w.clients ≠ [] ∨ w.oldClients ≠ [] then
    { w with clients := [], oldClients := w.clients ++ w.oldClients }
  else
    w.addEvent (.serverDisconnected w.address)

/-- The server announces that its last client is gone. -/
def announceEmpty : AppLoops :=
  if w.clients = [] ∧ w.oldClients = [] then w.addEvent (.serverDisconnected w.address) else w

/-- `Server::removeActiveClient`. -/
def removeActiveClient (client : ℕ) : AppLoops :=
  if client ∈ w.clients then
    announceEmpty { w with clients := w.clients.erase client }
  else w

/-- `Server::removeOldClient`. -/
def removeOldClient (client : ℕ) : AppLoops :=
  if client ∈ w.oldClients then
    announceEmpty { w with oldClients := w.oldClients.erase client }
  else w

/-- `Server::adoptClient`: a client that is turned away is closed. -/
def adoptClient (client : ℕ) (accepted : Bool) : AppLoops :=
  if accepted then { w with clients := client :: w.clients }
  else { w with oldClients := client :: w.oldClients }

/-- `Server::~Server`. -/
def destroyServer : AppLoops :=
  match w.app.server with
  | some _ => { w.disconnect with clients := [], oldClients := [] }
  | none => w

/-- The part of `closeServer` before its loop. -/
def await : AppLoops :=
  let w := w.disconnect
  { w with
    awaited := w.address :: w.awaited.filter (· ≠ w.address)
    waits := (w.address, true) :: w.waits
    notices := 0 }

/-- The application after a handler that may have made a server. -/
def become (env : LoopEnv) (app : ServerApp) : AppLoops :=
  { w with
    app := app
    address := if w.app.server ≠ app.server ∧ app.server.isSome then env.address else w.address }

/-- Handles the suspension, up to the loop of `closeServer` if there is a server to close. -/
def handleSuspend (env : LoopEnv) : AppLoops :=
  let app := w.app.handleSuspend env.start
  if app.loops = w.app.loops then w.become env app else { w with app := app }.await

/-- The innermost `closeServer` goes on and the server is destroyed. -/
def handleLoopEnd (env : LoopEnv) : Option AppLoops :=
  match w.waits, w.app.handleLoopEnd env.start with
  | (server, _) :: waits, some app =>
    some ({ w with
      waits := waits
      awaited := w.awaited.filter (· ≠ server) }.destroyServer.become env app)
  | _, _ => none

/-- The innermost loop handles an event that it has taken from the queue. -/
def dispatchEvent (env : LoopEnv) : QueuedEvent → Option AppLoops
  | .quit => if w.app.loops = [] then some { w with ended := true } else w.handleLoopEnd env
  | .suspend => some (w.handleSuspend env)
  | .resume => some (w.become env (w.app.handleResume env.start))
  | .serverDisconnected server =>
    -- otherwise only the status is updated
    some (if server ∈ w.awaited then w.handleClientsDisconnected else w)
  | .clientConnected client accepted =>
    some (if w.app.listener then w.adoptClient client accepted else w)
  | .clientDisconnected client => some ((w.removeActiveClient client).removeOldClient client)

/-- What can happen. -/
inductive Action
  /-- An event comes from outside. -/
  | post (e : QueuedEvent)
  /-- The innermost loop takes the oldest event. -/
  | dispatch (env : LoopEnv)
  /-- The timer of a `closeServer` that waits; the queue may seem to be empty while events are
  about to be put in. -/
  | timeout (wait : ℕ)
  /-- The timer of a client that is closed. -/
  | closeTimeout (client : ℕ)

/-- The program until its main loop ends. -/
def step : Action → Option AppLoops
  | .post e =>
    if w.ended then none
    else
      match e with
      | .quit => some { w.addEvent .quit with requested := w.requested + 1 }
      -- only the server adds this event
      | .serverDisconnected _ => none
      | e => some (w.addEvent e)
  | .dispatch env =>
    if w.ended then none
    else
      match w.queue with
      | [] => none
      | e :: queue => { w with queue := queue }.dispatchEvent env e
  | .timeout wait =>
    match w.waits[wait]? with
    | some (server, true) =>
      if w.ended then none
      else some { w with waits := w.waits.set wait (server, false) }.handleClientsDisconnected
    | _ => none
  | .closeTimeout client =>
    if !w.ended ∧ client ∈ w.oldClients then some (w.removeOldClient client) else none

/-- The program after its server was started. -/
def lts : LTS AppLoops Action where
  init w := ∃ restartable address, w = { app := ServerApp.create restartable, address := address }
  step w a := w.step a

/-- How many quit events are in the queue. -/
def quits : ℕ := w.queue.count .quit

/-- No request to quit is lost and none is invented. -/
structure Faithful : Prop where
  /-- The main loop ends only on request. -/
  requested : w.ended = true → 0 < w.requested
  /-- A request waits in the queue until the main loop has ended. -/
  queued : w.ended = false → 0 < w.requested → .quit ∈ w.queue
  /-- Outside of `closeServer` the quit events are the requests, less the one that ended the main
  loop. -/
  main : w.app.loops = [] → w.quits + (if w.ended then 1 else 0) = w.requested
  /-- The loop of `closeServer` has taken no request. -/
  nested : w.app.loops ≠ [] → w.ended = false ∧ w.requested ≤ w.quits
  /-- It comes to its end. -/
  ends : w.app.loops ≠ [] → .quit ∈ w.queue ∨ ∃ server, (server, true) ∈ w.waits

/-- A loop of `closeServer` takes a quit event after one of its notices, no second notice is
handled, and no suspension begins while one waits. -/
def CarefulEvent : QueuedEvent → Prop
  | .quit => w.app.loops ≠ [] → w.notices = 1
  | .suspend => w.app.suspended = false → w.app.loops = []
  | .serverDisconnected server => server ∈ w.awaited → w.notices = 0
  | _ => True

/-- Each `closeServer` handles one of its two notices before it takes a quit event. -/
def Careful : Action → Prop
  | .dispatch _ => ∀ e ∈ w.queue.head?, w.CarefulEvent e
  | .timeout _ => w.notices = 0
  | _ => True

instance : ∀ e, Decidable (w.CarefulEvent e)
  | .quit => inferInstanceAs (Decidable (_ → _))
  | .suspend => inferInstanceAs (Decidable (_ → _))
  | .serverDisconnected _ => inferInstanceAs (Decidable (_ → _))
  | .resume => .isTrue trivial
  | .clientConnected _ _ => .isTrue trivial
  | .clientDisconnected _ => .isTrue trivial

instance : ∀ a, Decidable (w.Careful a)
  | .post _ => .isTrue trivial
  | .dispatch _ => inferInstanceAs (Decidable (∀ e ∈ w.queue.head?, w.CarefulEvent e))
  | .timeout _ => inferInstanceAs (Decidable (_ = _))
  | .closeTimeout _ => .isTrue trivial

end AppLoops

/-! ### The loops of the application -/

namespace ServerApp

variable {a a' : ServerApp} {env : StartEnv}

theorem loops_retryLater (state : ServerState) : (a.retryLater state).2.loops = a.loops := by
  unfold retryLater
  split_ifs <;> rfl

theorem loops_initServer : (a.initServer env).2.loops = a.loops := by
  unfold initServer
  split_ifs
  · rfl
  · cases env.screen with
    | opened => rfl
    | unavailable => exact loops_retryLater _
    | failed => rfl

theorem loops_resetServer : a.resetServer.loops = a.loops := by
  unfold resetServer
  cases a.server <;> rfl

theorem loops_openServer : (a.openServer env).2.loops = a.loops := by
  unfold openServer
  cases env.listener with
  | opened => exact loops_resetServer
  | addressInUse => exact loops_retryLater _
  | failed => rfl

theorem loops_startServer : (a.startServer env).2.loops = a.loops := by
  unfold startServer
  by_cases hstarted : a.serverState = .starting ∨ a.serverState = .started
  · rw [if_pos hstarted]
  rw [if_neg hstarted]
  by_cases hstate : a.serverState ≠ .initialized
  · rw [if_pos hstate]
    have hinit : (a.initServer env).2.loops = a.loops := loops_initServer
    cases hresult : a.initServer env with
    | mk ok b =>
      rw [hresult] at hinit
      cases ok with
      | false => exact hinit
      | true =>
        show (if b.serverState = .initializing then
          (true, { b with serverState := .initializingToStart }) else b.openServer env).2.loops = _
        split_ifs
        · exact hinit
        · exact loops_openServer.trans hinit
  · rw [if_neg hstate]
    exact loops_openServer

theorem loops_serverStopped : (a.serverStopped env).loops = a.loops := by
  unfold serverStopped
  split_ifs
  · rfl
  · exact loops_startServer

theorem loops_handleResume : (a.handleResume env).loops = a.loops := by
  unfold handleResume
  split_ifs
  · exact loops_startServer
  · rfl

/-- A suspension begins no loop, or one of `closeServer`. -/
theorem loops_handleSuspend : (a.handleSuspend env).loops = a.loops ∨
    a.suspended = false ∧ ∃ id, (a.handleSuspend env).loops = id :: a.loops := by
  unfold handleSuspend
  by_cases hsuspended : a.suspended = true
  · rw [if_pos hsuspended]
    exact .inl rfl
  rw [if_neg hsuspended]
  obtain ⟨b, hb⟩ : ∃ b : ServerApp, b = { a with suspended := true } := ⟨_, rfl⟩
  have hloops : b.loops = a.loops := by rw [hb]
  rw [← hb]
  cases hstate : b.serverState with
  | started =>
    cases hserver : b.server with
    | none =>
      simp only [hstate, hserver]
      exact .inl (loops_serverStopped.trans (loops_resetServer.trans hloops))
    | some id =>
      simp only [hstate, hserver]
      exact .inr ⟨Bool.eq_false_iff.2 hsuspended, id, congrArg (id :: ·) hloops⟩
  | starting =>
    simp only [hstate]
    exact .inl (loops_serverStopped.trans hloops)
  | uninitialized =>
    simp only [hstate]
    exact .inl (loops_serverStopped.trans hloops)
  | initializing =>
    simp only [hstate]
    exact .inl (loops_serverStopped.trans hloops)
  | initializingToStart =>
    simp only [hstate]
    exact .inl (loops_serverStopped.trans hloops)
  | initialized =>
    simp only [hstate]
    exact .inl (loops_serverStopped.trans hloops)

/-- The innermost loop is the one that ends. -/
theorem loops_handleLoopEnd (h : a.handleLoopEnd env = some a') :
    ∃ id, a.loops = id :: a'.loops := by
  unfold handleLoopEnd at h
  cases hloops : a.loops with
  | nil => simp [hloops] at h
  | cons id loops =>
    simp only [hloops, Option.some.injEq] at h
    have hclosed : ({ a with loops := loops }.use id).serverClosed.loops = loops :=
      loops_resetServer
    exact ⟨id, by rw [← h, loops_serverStopped, hclosed]⟩

end ServerApp

namespace AppLoops

variable {w w' : AppLoops} {env : LoopEnv}

/-! ### What the server does to the queue -/

/-- The two differ in the server and in events other than quit events. -/
structure Alike (w w' : AppLoops) : Prop where
  app : w'.app = w.app
  quits : w'.quits = w.quits
  awaited : w'.awaited = w.awaited
  waits : w'.waits = w.waits
  ended : w'.ended = w.ended
  requested : w'.requested = w.requested
  notices : w'.notices = w.notices

theorem Alike.refl (w : AppLoops) : w.Alike w := ⟨rfl, rfl, rfl, rfl, rfl, rfl, rfl⟩

theorem Alike.trans {w'' : AppLoops} (h : w.Alike w') (h' : w'.Alike w'') : w.Alike w'' :=
  ⟨h'.app.trans h.app, h'.quits.trans h.quits, h'.awaited.trans h.awaited, h'.waits.trans h.waits,
    h'.ended.trans h.ended, h'.requested.trans h.requested, h'.notices.trans h.notices⟩

theorem quits_addEvent {e : QueuedEvent} (he : e ≠ .quit) : (w.addEvent e).quits = w.quits := by
  rw [quits, addEvent, List.count_append, List.count_singleton, if_neg (by simpa using he)]
  rfl

theorem quits_addEvent_quit : (w.addEvent .quit).quits = w.quits + 1 := by
  rw [quits, addEvent, List.count_append, List.count_singleton_self]
  rfl

theorem alike_addEvent {e : QueuedEvent} (he : e ≠ .quit) : w.Alike (w.addEvent e) :=
  ⟨rfl, quits_addEvent he, rfl, rfl, rfl, rfl, rfl⟩

theorem alike_disconnect : w.Alike w.disconnect := by
  unfold disconnect
  split_ifs
  · exact ⟨rfl, rfl, rfl, rfl, rfl, rfl, rfl⟩
  · refine alike_addEvent ?_
    rintro ⟨⟩

theorem alike_announceEmpty : w.Alike w.announceEmpty := by
  unfold announceEmpty
  split_ifs
  · refine alike_addEvent ?_
    rintro ⟨⟩
  · exact .refl w

theorem alike_removeActiveClient (client : ℕ) : w.Alike (w.removeActiveClient client) := by
  unfold removeActiveClient
  split_ifs
  · have hkept : w.Alike { w with clients := w.clients.erase client } :=
      ⟨rfl, rfl, rfl, rfl, rfl, rfl, rfl⟩
    exact hkept.trans alike_announceEmpty
  · exact .refl w

theorem alike_removeOldClient (client : ℕ) : w.Alike (w.removeOldClient client) := by
  unfold removeOldClient
  split_ifs
  · have hkept : w.Alike { w with oldClients := w.oldClients.erase client } :=
      ⟨rfl, rfl, rfl, rfl, rfl, rfl, rfl⟩
    exact hkept.trans alike_announceEmpty
  · exact .refl w

theorem alike_adoptClient (client : ℕ) (accepted : Bool) :
    w.Alike (w.adoptClient client accepted) := by
  unfold adoptClient
  split_ifs <;> exact ⟨rfl, rfl, rfl, rfl, rfl, rfl, rfl⟩

theorem alike_destroyServer : w.Alike w.destroyServer := by
  unfold destroyServer
  cases w.app.server with
  | none => exact .refl w
  | some id =>
    exact alike_disconnect.trans ⟨rfl, rfl, rfl, rfl, rfl, rfl, rfl⟩

/-! ### The two phases of a careful run -/

/-- The main loop takes the events, or has ended. -/
structure InMain (w : AppLoops) : Prop where
  loops : w.app.loops = []
  waits : w.waits = []
  awaited : w.awaited = []
  quits : w.quits + (if w.ended then 1 else 0) = w.requested

/-- A loop of `closeServer` takes the events. -/
structure InCloseServer (w : AppLoops) (server : ℕ) (timer : Bool) : Prop where
  loops : ∃ id, w.app.loops = [id]
  waits : w.waits = [(server, timer)]
  awaited : w.awaited = [server]
  ended : w.ended = false
  notices : w.notices ≤ 1
  quits : w.quits = w.requested + w.notices
  timer : w.notices = 0 → timer = true

/-- Where a careful run is. -/
def Inv (w : AppLoops) : Prop := w.InMain ∨ ∃ server timer, w.InCloseServer server timer

theorem mem_queue_of_quits (h : 0 < w.quits) : .quit ∈ w.queue := List.count_pos_iff.1 h

theorem Inv.faithful (h : w.Inv) : w.Faithful := by
  rcases h with h | ⟨server, timer, h⟩
  · have hquits := h.quits
    refine ⟨?_, ?_, fun _ => hquits, fun hne => absurd h.loops hne, fun hne => absurd h.loops hne⟩
    · intro hended
      rw [if_pos hended] at hquits
      omega
    · intro hended hrequested
      rw [hended] at hquits
      refine mem_queue_of_quits ?_
      simp only [Bool.false_eq_true, if_false] at hquits
      omega
  · obtain ⟨id, hloops⟩ := h.loops
    have hquits := h.quits
    refine ⟨?_, ?_, ?_, fun _ => ⟨h.ended, by omega⟩, fun _ => ?_⟩
    · intro hended
      rw [h.ended] at hended
      cases hended
    · intro _ hrequested
      exact mem_queue_of_quits (by omega)
    · intro hnil
      rw [hloops] at hnil
      cases hnil
    · by_cases hzero : w.notices = 0
      · refine .inr ⟨server, ?_⟩
        rw [h.waits, h.timer hzero]
        exact List.mem_cons_self
      · exact .inl (mem_queue_of_quits (by omega))

theorem Inv.alike (h : w.Inv) (ha : w.Alike w') : w'.Inv := by
  rcases h with h | ⟨server, timer, h⟩
  · refine .inl ⟨by rw [ha.app, h.loops], by rw [ha.waits, h.waits], by rw [ha.awaited, h.awaited],
      ?_⟩
    rw [ha.quits, ha.ended, ha.requested, h.quits]
  · refine .inr ⟨server, timer, by rw [ha.app]; exact h.loops, by rw [ha.waits, h.waits],
      by rw [ha.awaited, h.awaited], by rw [ha.ended, h.ended], by rw [ha.notices]; exact h.notices,
      ?_, by rw [ha.notices]; exact h.timer⟩
    rw [ha.quits, ha.requested, ha.notices, h.quits]

/-- A handler that waits nowhere. -/
theorem Inv.become {app : ServerApp} (h : w.Inv) (hloops : app.loops = w.app.loops) :
    (w.become env app).Inv := by
  rcases h with h | ⟨server, timer, h⟩
  · exact .inl ⟨hloops.trans h.loops, h.waits, h.awaited, h.quits⟩
  · obtain ⟨id, hid⟩ := h.loops
    exact .inr ⟨server, timer, ⟨id, hloops.trans hid⟩, h.waits, h.awaited, h.ended, h.notices,
      h.quits, h.timer⟩

/-- An event that is no quit event is taken from the queue. -/
theorem alike_tail {e : QueuedEvent} {queue : List QueuedEvent} (hqueue : w.queue = e :: queue)
    (he : e ≠ .quit) : w.Alike { w with queue := queue } := by
  refine ⟨rfl, ?_, rfl, rfl, rfl, rfl, rfl⟩
  rw [quits, quits, hqueue, List.count_cons_of_ne he]

theorem quits_tail {queue : List QueuedEvent} (hqueue : w.queue = .quit :: queue) :
    w.quits = ({ w with queue := queue } : AppLoops).quits + 1 := by
  rw [quits, quits, hqueue, List.count_cons_self]

/-- A notice is handled while none was. -/
theorem Inv.handleClientsDisconnected {server : ℕ} {timer : Bool}
    (h : w.InCloseServer server timer) (hnone : w.notices = 0)
    (ha : w'.app = w.app ∧ w'.quits = w.quits ∧ w'.awaited = w.awaited ∧ w'.ended = w.ended ∧
      w'.requested = w.requested ∧ w'.notices = w.notices)
    (hwaits : ∃ timer', w'.waits = [(server, timer')]) : w'.handleClientsDisconnected.Inv := by
  obtain ⟨happ, hquits, hawaited, hended, hrequested, hnotices⟩ := ha
  obtain ⟨timer', hwaits⟩ := hwaits
  have hcount : w'.handleClientsDisconnected.quits = w.quits + 1 := by
    rw [← hquits]
    exact quits_addEvent_quit
  refine .inr ⟨server, timer', ?_, hwaits, hawaited.trans h.awaited, hended.trans h.ended, ?_, ?_,
    ?_⟩
  · show ∃ id, w'.app.loops = [id]
    rw [happ]
    exact h.loops
  · show w'.notices + 1 ≤ 1
    omega
  · rw [hcount, h.quits]
    show w.requested + w.notices + 1 = w'.requested + (w'.notices + 1)
    omega
  · intro hzero
    exact absurd hzero (Nat.succ_ne_zero _)

/-- A suspension. -/
theorem Inv.handleSuspend (h : w.Inv) (hcareful : w.app.suspended = false → w.app.loops = [])
    (hended : w.ended = false) : (w.handleSuspend env).Inv := by
  unfold AppLoops.handleSuspend
  by_cases hsame : (w.app.handleSuspend env.start).loops = w.app.loops
  · rw [if_pos hsame]
    exact h.become hsame
  rw [if_neg hsame]
  obtain ⟨hsuspended, id, hloops⟩ := ServerApp.loops_handleSuspend.resolve_left hsame
  have hnil := hcareful hsuspended
  rcases h with h | ⟨server, timer, h⟩
  · obtain ⟨w₀, hw₀⟩ : ∃ w₀ : AppLoops, w₀ = { w with app := w.app.handleSuspend env.start } :=
      ⟨_, rfl⟩
    rw [← hw₀]
    have ha : w₀.Alike w₀.disconnect := alike_disconnect
    refine .inr ⟨w₀.disconnect.address, true, ⟨id, ?_⟩, ?_, ?_, ?_, Nat.zero_le _, ?_,
      fun _ => rfl⟩
    · show w₀.disconnect.app.loops = [id]
      rw [ha.app, hw₀, hloops, hnil]
    · show (w₀.disconnect.address, true) :: w₀.disconnect.waits = _
      rw [ha.waits, hw₀, h.waits]
    · show w₀.disconnect.address :: w₀.disconnect.awaited.filter _ = _
      rw [ha.awaited, hw₀, h.awaited]
      rfl
    · show w₀.disconnect.ended = false
      rw [ha.ended, hw₀, hended]
    · show w₀.disconnect.quits = w₀.disconnect.requested + 0
      have hquits := h.quits
      rw [hended] at hquits
      rw [ha.quits, ha.requested, hw₀]
      exact hquits
  · obtain ⟨id', hid'⟩ := h.loops
    rw [hnil] at hid'
    cases hid'

/-- The loop of `closeServer` takes a quit event after one notice. -/
theorem Inv.handleLoopEnd {server : ℕ} {timer : Bool} {queue : List QueuedEvent}
    (h : w.InCloseServer server timer) (hqueue : w.queue = .quit :: queue) (hone : w.notices = 1)
    (hst : ({ w with queue := queue } : AppLoops).handleLoopEnd env = some w') : w'.Inv := by
  obtain ⟨id, hloops⟩ := h.loops
  unfold AppLoops.handleLoopEnd at hst
  cases happ : w.app.handleLoopEnd env.start with
  | none => simp [happ] at hst
  | some app =>
    simp only [h.waits, happ, Option.some.injEq] at hst
    obtain ⟨w₀, hw₀⟩ : ∃ w₀ : AppLoops, w₀ = { w with
        queue := queue, waits := [], awaited := w.awaited.filter (· ≠ server) } := ⟨_, rfl⟩
    rw [← hw₀] at hst
    have ha : w₀.Alike w₀.destroyServer := alike_destroyServer
    obtain ⟨id', hid'⟩ := ServerApp.loops_handleLoopEnd happ
    have hnil : app.loops = [] := by
      rw [hloops] at hid'
      exact (List.cons.inj hid').2.symm
    rw [← hst]
    refine .inl ⟨hnil, ?_, ?_, ?_⟩
    · show w₀.destroyServer.waits = []
      rw [ha.waits, hw₀]
    · show w₀.destroyServer.awaited = []
      rw [ha.awaited, hw₀]
      simp [h.awaited]
    · show w₀.destroyServer.quits + (if w₀.destroyServer.ended then 1 else 0) =
        w₀.destroyServer.requested
      have hquits := quits_tail hqueue
      have hbefore := h.quits
      have hcount : w₀.quits = ({ w with queue := queue } : AppLoops).quits := by
        rw [hw₀]
        rfl
      have hended : w₀.ended = false := by
        rw [hw₀]
        exact h.ended
      have hrequested : w₀.requested = w.requested := by rw [hw₀]
      rw [ha.quits, ha.ended, ha.requested, hended, hcount, hrequested]
      simp only [Bool.false_eq_true, if_false]
      omega

/-- The event that a loop takes. -/
theorem Inv.dispatchEvent {e : QueuedEvent} {queue : List QueuedEvent} (h : w.Inv)
    (hqueue : w.queue = e :: queue) (hended : w.ended = false)
    (hcareful : w.Careful (.dispatch env))
    (hst : ({ w with queue := queue } : AppLoops).dispatchEvent env e = some w') : w'.Inv := by
  have hcareful := hcareful e (by rw [hqueue]; rfl)
  cases e with
  | quit =>
    by_cases hmain : w.app.loops = []
    · rw [AppLoops.dispatchEvent, if_pos hmain] at hst
      obtain rfl := Option.some.inj hst
      rcases h with h | ⟨server, timer, h⟩
      · refine .inl ⟨hmain, h.waits, h.awaited, ?_⟩
        have hquits := h.quits
        rw [hended, quits_tail hqueue] at hquits
        exact hquits
      · obtain ⟨id, hid⟩ := h.loops
        rw [hmain] at hid
        cases hid
    · rw [AppLoops.dispatchEvent, if_neg hmain] at hst
      rcases h with h | ⟨server, timer, h⟩
      · exact absurd h.loops hmain
      · exact Inv.handleLoopEnd h hqueue (hcareful hmain) hst
  | suspend =>
    obtain rfl := Option.some.inj hst
    exact (h.alike (alike_tail hqueue (by rintro ⟨⟩))).handleSuspend hcareful hended
  | resume =>
    obtain rfl := Option.some.inj hst
    exact (h.alike (alike_tail hqueue (by rintro ⟨⟩))).become ServerApp.loops_handleResume
  | serverDisconnected server =>
    have ha : w.Alike { w with queue := queue } := alike_tail hqueue (by rintro ⟨⟩)
    obtain rfl := Option.some.inj hst
    by_cases hawaited : server ∈ w.awaited
    · rw [if_pos hawaited]
      rcases h with h | ⟨server', timer, h⟩
      · rw [h.awaited] at hawaited
        exact absurd hawaited List.not_mem_nil
      · exact Inv.handleClientsDisconnected h (hcareful hawaited)
          ⟨rfl, ha.quits, rfl, rfl, rfl, rfl⟩ ⟨timer, h.waits⟩
    · rw [if_neg hawaited]
      exact h.alike ha
  | clientConnected client accepted =>
    obtain rfl := Option.some.inj hst
    have h' := h.alike (alike_tail hqueue (by rintro ⟨⟩))
    split_ifs
    · exact h'.alike (alike_adoptClient client accepted)
    · exact h'
  | clientDisconnected client =>
    obtain rfl := Option.some.inj hst
    have h' := h.alike (alike_tail hqueue (by rintro ⟨⟩))
    exact (h'.alike (alike_removeActiveClient client)).alike (alike_removeOldClient client)

/-- A request to quit comes. -/
theorem Inv.addQuit (h : w.Inv) :
    ({ w.addEvent .quit with requested := w.requested + 1 } : AppLoops).Inv := by
  have hcount : ({ w.addEvent .quit with requested := w.requested + 1 } : AppLoops).quits =
      w.quits + 1 := quits_addEvent_quit
  rcases h with h | ⟨server, timer, h⟩
  · refine .inl ⟨h.loops, h.waits, h.awaited, ?_⟩
    have hquits := h.quits
    rw [hcount]
    show w.quits + 1 + (if w.ended then 1 else 0) = w.requested + 1
    omega
  · refine .inr ⟨server, timer, h.loops, h.waits, h.awaited, h.ended, h.notices, ?_, h.timer⟩
    have hquits := h.quits
    rw [hcount]
    show w.quits + 1 = w.requested + 1 + w.notices
    omega

/-- What an event from outside does. -/
theorem step_post {e : QueuedEvent} (hst : w.step (.post e) = some w') :
    e = .quit ∧ w' = { w.addEvent .quit with requested := w.requested + 1 } ∨
      e ≠ .quit ∧ w' = w.addEvent e := by
  cases hended : w.ended with
  | true =>
    rw [AppLoops.step.eq_def] at hst
    simp [hended] at hst
  | false => cases e <;> simp_all [AppLoops.step]

/-- A careful step keeps what holds between the handlers. -/
theorem Inv.step {a : Action} (h : w.Inv) (hcareful : w.Careful a)
    (hst : w.step a = some w') : w'.Inv := by
  cases a with
  | post e =>
    obtain ⟨rfl, rfl⟩ | ⟨he, rfl⟩ := step_post hst
    · exact h.addQuit
    · exact h.alike (alike_addEvent he)
  | dispatch env =>
    rw [AppLoops.step] at hst
    obtain ⟨hended, hst⟩ := Option.ite_none_left_eq_some.1 hst
    cases hqueue : w.queue with
    | nil =>
      rw [hqueue] at hst
      cases hst
    | cons e queue =>
      rw [hqueue] at hst
      exact h.dispatchEvent hqueue (Bool.eq_false_iff.2 hended) hcareful hst
  | timeout wait =>
    rw [AppLoops.step] at hst
    rcases h with h | ⟨server, timer, h⟩
    · rw [h.waits] at hst
      cases hst
    cases wait with
    | succ n =>
      rw [h.waits] at hst
      cases hst
    | zero =>
      cases timer with
      | false =>
        rw [h.waits] at hst
        cases hst
      | true =>
        have hget : w.waits[0]? = some (server, true) := by
          rw [h.waits]
          rfl
        simp only [hget] at hst
        obtain ⟨-, hst⟩ := Option.ite_none_left_eq_some.1 hst
        obtain rfl := Option.some.inj hst
        refine Inv.handleClientsDisconnected h hcareful ⟨rfl, rfl, rfl, rfl, rfl, rfl⟩
          ⟨false, ?_⟩
        rw [h.waits]
        rfl
  | closeTimeout client =>
    obtain ⟨-, hst⟩ := Option.ite_none_right_eq_some.1 hst
    obtain rfl := Option.some.inj hst
    exact h.alike (alike_removeOldClient client)

/-- **Careful runs neither lose a request to quit nor invent one.**  The main loop ends only on
request, a request waits in the queue until the main loop has ended, and the loop of `closeServer`
ends with a quit event of its own. -/
theorem loops_faithful_of_reachable (hw : lts.ReachableVia Careful w) : w.Faithful := by
  have h : w.Inv := by
    refine hw.invariant (I := Inv) ?_ ?_
    · rintro w ⟨restartable, address, rfl⟩
      exact .inl ⟨rfl, rfl, rfl, rfl⟩
    · intro w a w' h hcareful hst
      exact h.step hcareful hst
  exact h.faithful

/-- The program with its server at the address 1. -/
def started : AppLoops := { app := ServerApp.create true, address := 1 }

/-- The last client goes while the server is suspended; then the user quits. -/
def quitAfterSuspend : List Action :=
  [.post (.clientConnected 7 true), .dispatch {}, .post .suspend, .dispatch {},
    .post (.clientDisconnected 7), .dispatch {}, .dispatch {}, .post .quit, .dispatch {},
    .dispatch {}]

/-- The user's request ends the main loop. -/
theorem loops_faithful_of_reachable_quitAfterSuspend :
    ∃ w : AppLoops, w.Faithful ∧ w.ended = true ∧ w.requested = 1 := by
  have hrun : (lts.exec started quitAfterSuspend).map (fun w => (w.ended, w.requested)) =
      some (true, 1) := by decide +kernel
  obtain ⟨w, hw, hend⟩ := Option.map_eq_some_iff.1 hrun
  obtain ⟨hended, hrequested⟩ := Prod.mk.inj hend
  exact ⟨w, loops_faithful_of_reachable (.of_exec (.init ⟨true, 1, rfl⟩) (by decide +kernel) hw),
    hended, hrequested⟩

/-- The user quits while a suspension waits for a client to go. -/
def quitWhileWaiting : List Action :=
  [.post (.clientConnected 7 true), .dispatch {}, .post .suspend, .dispatch {}, .post .quit,
    .dispatch {}]

/-- The loop of `closeServer` takes the request, and the main loop goes on. -/
theorem not_loops_faithful_of_reachable : ¬∀ w, lts.Reachable w → w.Faithful := by
  intro h
  have hrun : (lts.exec started quitWhileWaiting).map
      (fun w => (w.ended, w.requested, w.queue)) = some (false, 1, []) := by decide +kernel
  obtain ⟨w, hw, hend⟩ := Option.map_eq_some_iff.1 hrun
  obtain ⟨hended, hrest⟩ := Prod.mk.inj hend
  obtain ⟨hrequested, hqueue⟩ := Prod.mk.inj hrest
  have hfaithful := h w (.of_exec ⟨true, 1, rfl⟩ hw)
  have hwaits := hfaithful.queued hended (by rw [hrequested]; exact Nat.one_pos)
  rw [hqueue] at hwaits
  exact absurd hwaits List.not_mem_nil

/-- The last client goes, and the suspension announces the empty server a second time: the main
loop ends although nobody asked for it. -/
example : (lts.exec started [.post (.clientConnected 7 true), .dispatch {},
    .post (.clientDisconnected 7), .post .suspend, .dispatch {}, .dispatch {}, .dispatch {},
    .dispatch {}, .dispatch {}, .dispatch {}]).map
      (fun w => (w.ended, w.requested)) = some (true, 0) := by decide +kernel

end AppLoops

end InputLeap
