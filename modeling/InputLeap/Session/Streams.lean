import InputLeap.Session.Acks

/-!
# A session on streams of bytes

The two ends of a session as they are: the messages are packets on two streams, which arrive in
segments of any size at any time, and each end takes one message after another out of its stream.
What such a session does is what a session does whose messages wait in order.

## Main definitions

* `Streams` : the ends and the two connections.
* `Streams.session` : the session that one sees in them.

## Main results

* `Streams.session_reachable` : it is a run of a session.
* `Streams.no_error_of_runs` : neither end takes a message for invalid.
* `Streams.obeyed_of_runs` : the moves that the client obeys are for the shape that it has.
* `Streams.agree_of_quiet` : the ends agree when nothing is on its way.
-/

namespace InputLeap

open ClientConnection (Call)

/-- The two ends of a session and the streams between them. -/
structure Streams where
  ends : Session.Ends
  /-- From the server to the client. -/
  down : Dialect.Link Call
  marks : List (Option Session.Report)
  /-- From the client to the server. -/
  up : Dialect.Link ServerProxy.Call
  obeyed : List (Option Session.Report × Option Session.Report) := []

namespace Streams

open Session (Ends Report ServerAct ClientAct Stage)

/-- The session that one sees: the calls, and how many of them were handled. -/
def session (w : Streams) : Session where
  ends := w.ends
  down := w.down.calls
  marks := w.marks
  heard := w.down.conversation.handled.length
  up := w.up.calls
  read := w.up.conversation.handled.length
  obeyed := w.obeyed

/-- What can happen. -/
inductive Event
  | server (act : ServerAct)
  | client (act : ClientAct)
  /-- A segment arrives at the client. -/
  | downArrives (pieces : List Bytes)
  /-- A segment arrives at the server. -/
  | upArrives (pieces : List Bytes)
  /-- A round of `ClientProxy1_6::handle_data`. -/
  | serverHandles
  /-- A round of `ServerProxy::handle_data`. -/
  | clientHandles

/-- The server makes calls. -/
def writes (w : Streams) (e : Ends) (calls : List Call) : Option Streams :=
  (ClientConnection.dialect.makes w.down calls).map fun down =>
    { w with ends := e, down, marks := w.marks ++ calls.map fun _ => e.saved }

/-- The client makes calls. -/
def replies (w : Streams) (e : Ends) (calls : List ServerProxy.Call) : Option Streams :=
  (ServerProxy.dialect.makes w.up calls).map fun up => { w with ends := e, up }

/-- The message that was handled in a round, if it could be read. -/
def handled {C : Type} (d : Dialect C) (s s' : Dialect.Link C) : Option C :=
  ((d.received s')[(d.received s).length]?).join

/-- One step. -/
def step (w : Streams) : Event → Option Streams
  | .server act => (w.ends.serverActs act).bind fun r => w.writes r.1 r.2
  | .client act => (w.ends.clientActs act).bind fun r => w.replies r.1 r.2
  | .downArrives pieces =>
    (ClientConnection.dialect.step w.down (.arrive pieces)).map fun down => { w with down }
  | .upArrives pieces =>
    (ServerProxy.dialect.step w.up (.arrive pieces)).map fun up => { w with up }
  | .serverHandles =>
    (ServerProxy.dialect.step w.up .handle).bind fun up =>
      match handled ServerProxy.dialect w.up up with
      | some call =>
        let r := w.ends.serverHears call
        { w with up }.writes r.1 r.2
      | none => some { w with up }
  | .clientHandles =>
    (ClientConnection.dialect.step w.down .handle).bind fun down =>
      match handled ClientConnection.dialect w.down down with
      | some call =>
        let r := w.ends.clientHears call
        { w with down, obeyed := w.obeyed ++ w.session.obeys call }.replies r.1 r.2
      | none => some { w with down }

/-- The proxy has just been created and has asked for the shape. -/
def created (screen : Report) : Option Streams :=
  writes ⟨{ screen }, ⟨{ parser := .handshake }, []⟩, [], ⟨{ parser := .handshake }, []⟩, []⟩
    { screen } [.queryInfo]

/-- The runs of a session on streams. -/
def lts : LTS Streams Event where
  init w := ∃ screen : Report, screen.Valid ∧ created screen = some w
  step := step

/-- The calls are made as in a session, and the buffers have room for what arrives. -/
def Admits (G : Session → Session.Event → Prop) (w : Streams) : Event → Prop
  | .server act => G w.session (.server act)
  | .client act => G w.session (.client act)
  | .downArrives pieces => w.down.conversation.Fits (.arrive pieces)
  | .upArrives pieces => w.up.conversation.Fits (.arrive pieces)
  | .serverHandles => G w.session .serverHears
  | .clientHandles => G w.session .clientHears

instance (G : Session → Session.Event → Prop) [∀ s ev, Decidable (G s ev)] (w : Streams) :
    ∀ ev, Decidable (Admits G w ev)
  | .server act => inferInstanceAs (Decidable (G w.session (.server act)))
  | .client act => inferInstanceAs (Decidable (G w.session (.client act)))
  | .downArrives pieces => inferInstanceAs (Decidable (w.down.conversation.Fits (.arrive pieces)))
  | .upArrives pieces => inferInstanceAs (Decidable (w.up.conversation.Fits (.arrive pieces)))
  | .serverHandles => inferInstanceAs (Decidable (G w.session .serverHears))
  | .clientHandles => inferInstanceAs (Decidable (G w.session .clientHears))

variable {G : Session → Session.Event → Prop} {w w' : Streams}

/-! ### The session in the streams -/

/-- Both connections are in runs of their own, and what one sees is a session. -/
structure Linked (G : Session → Session.Event → Prop) (w : Streams) : Prop where
  session : Session.lts.ReachableVia G w.session
  down : ClientConnection.dialect.lts.ReachableVia ClientConnection.dialect.Admits w.down
  up : ServerProxy.dialect.lts.ReachableVia ServerProxy.dialect.Admits w.up

/-- Calls of the server that lead to a session. -/
theorem writes_session {e : Ends} {calls : List Call}
    (hdown : ClientConnection.dialect.lts.ReachableVia ClientConnection.dialect.Admits w.down)
    (hordered : Session.Ordered (w.session.writes e calls)) (hw : w.writes e calls = some w') :
    w'.session = w.session.writes e calls ∧ w'.up = w.up ∧
      ClientConnection.dialect.lts.ReachableVia ClientConnection.dialect.Admits w'.down := by
  obtain ⟨down, hmakes, rfl⟩ := Option.map_eq_some_iff.1 hw
  obtain ⟨hs, hcalls, hhandled, -⟩ := Dialect.makes_of_follows hdown
    (fun c hmem => hordered.downFit c (List.mem_append_right _ hmem)) hordered.down hmakes
  refine ⟨?_, rfl, hs⟩
  simp only [session, Session.writes, hcalls, hhandled]

/-- Calls of the client that lead to a session. -/
theorem replies_session {e : Ends} {calls : List ServerProxy.Call}
    (hup : ServerProxy.dialect.lts.ReachableVia ServerProxy.dialect.Admits w.up)
    (hordered : Session.Ordered (w.session.replies e calls)) (hw : w.replies e calls = some w') :
    w'.session = w.session.replies e calls ∧ w'.down = w.down ∧
      ServerProxy.dialect.lts.ReachableVia ServerProxy.dialect.Admits w'.up := by
  obtain ⟨up, hmakes, rfl⟩ := Option.map_eq_some_iff.1 hw
  obtain ⟨hs, hcalls, hhandled, -⟩ := Dialect.makes_of_follows hup
    (fun c hmem => hordered.upFit c (List.mem_append_right _ hmem)) hordered.up hmakes
  refine ⟨?_, rfl, hs⟩
  simp only [session, Session.replies, hcalls, hhandled]

/-- What a round does to the calls and to what was handled. -/
theorem handled_of_step {C : Type} {d : Dialect C} {s s' : Dialect.Link C} (hd : d.Speaks)
    (hs : d.lts.ReachableVia d.Admits s) (hst : d.step s .handle = some s') :
    s'.calls = s.calls ∧ s.conversation.ending = none ∧
      (handled d s s' = none ∧
          s'.conversation.handled.length = s.conversation.handled.length ∨
        ∃ c, s.calls[s.conversation.handled.length]? = some c ∧
          handled d s s' = some (d.onWire c) ∧
          s'.conversation.handled.length = s.conversation.handled.length + 1) := by
  have hopen : s.conversation.ending = none := by
    obtain ⟨t, ht, -⟩ := Option.map_eq_some_iff.1 hst
    exact (Conversation.handled_handle ht).1
  obtain ⟨hcalls, ⟨hsame, -⟩ | ⟨c, hc, hmore⟩⟩ := hd.handles hs hst
  · refine ⟨hcalls, hopen, .inl ⟨?_, ?_⟩⟩
    · simp [handled, hsame]
    · rw [← d.length_received, ← d.length_received, hsame]
  · refine ⟨hcalls, hopen, .inr ⟨c, hc, ?_, ?_⟩⟩
    · simp [handled, hmore]
    · rw [← d.length_received, ← d.length_received, hmore, List.length_append]
      rfl

/-- The client has disconnected exactly if its connection has ended. -/
theorem Linked.disconnected_eq_false (h : Linked G w) (hG : ∀ s ev, G s ev → Session.Admits s ev)
    (hopen : w.down.conversation.ending = none) : w.ends.disconnected = false := by
  have hlive := Session.live_of_runs (h.session.mono hG)
  obtain ⟨done, hdone, -⟩ := ClientConnection.table.speaks.exists_handled h.down
  have htake : w.down.calls.take w.down.conversation.handled.length = done := by
    obtain ⟨later, hlater⟩ := hdone.calls
    rw [← hlater, ← Dialect.length_received (d := ClientConnection.dialect), hdone.received,
      List.length_map, List.take_left]
  rcases hdone.parser with ⟨-, hafter⟩ | ⟨⟨code, values, hend⟩, -⟩
  · refine Bool.eq_false_iff.2 fun hover => ?_
    have hnone := hlive.1 hover
    have heq : ClientConnection.dialect.after .handshake done = none := htake ▸ hnone
    rw [hafter] at heq
    cases heq
  · rw [hopen] at hend
    cases hend

/-- **Each step on the streams is a step of the session**, or none that one sees. -/
theorem Linked.step {ev : Event} (hG : ∀ s ev, G s ev → Session.Admits s ev) (h : Linked G w)
    (hadm : Admits G w ev) (hst : step w ev = some w') : Linked G w' := by
  cases ev with
  | server act =>
    obtain ⟨⟨e, calls⟩, hacts, hw⟩ := Option.bind_eq_some_iff.1 hst
    have hsession : Session.lts.ReachableVia G (w.session.writes e calls) :=
      .step h.session hadm (Option.map_eq_some_iff.2 ⟨_, hacts, rfl⟩)
    obtain ⟨hsame, hup, hdown⟩ :=
      writes_session h.down (Session.ordered_of_runs (hsession.mono hG)) hw
    exact ⟨hsame ▸ hsession, hdown, hup ▸ h.up⟩
  | client act =>
    obtain ⟨⟨e, calls⟩, hacts, hw⟩ := Option.bind_eq_some_iff.1 hst
    have hsession : Session.lts.ReachableVia G (w.session.replies e calls) :=
      .step h.session hadm (Option.map_eq_some_iff.2 ⟨_, hacts, rfl⟩)
    obtain ⟨hsame, hdown, hup⟩ :=
      replies_session h.up (Session.ordered_of_runs (hsession.mono hG)) hw
    exact ⟨hsame ▸ hsession, hdown ▸ h.down, hup⟩
  -- Bytes that arrive are no step of the session: they change no call.
  | downArrives pieces =>
    obtain ⟨down, hdown, rfl⟩ := Option.map_eq_some_iff.1 hst
    refine ⟨?_, .step h.down (l := .arrive pieces) hadm hdown, h.up⟩
    obtain ⟨t, ht, rfl⟩ := Option.map_eq_some_iff.1 hdown
    obtain ⟨p, -, rfl⟩ := Option.map_eq_some_iff.1 ht
    exact h.session
  | upArrives pieces =>
    obtain ⟨up, hup, rfl⟩ := Option.map_eq_some_iff.1 hst
    refine ⟨?_, h.down, .step h.up (l := .arrive pieces) hadm hup⟩
    obtain ⟨t, ht, rfl⟩ := Option.map_eq_some_iff.1 hup
    obtain ⟨p, -, rfl⟩ := Option.map_eq_some_iff.1 ht
    exact h.session
  | serverHandles =>
    obtain ⟨up, hup, hst⟩ := Option.bind_eq_some_iff.1 hst
    have hup' : ServerProxy.dialect.lts.ReachableVia ServerProxy.dialect.Admits up :=
      .step h.up (l := .handle) trivial hup
    obtain ⟨hcalls, -, ⟨hnone, hlength⟩ | ⟨call, hcall, hsome, hlength⟩⟩ :=
      handled_of_step ServerProxy.table.speaks h.up hup
    · -- no whole message is there yet
      rw [hnone] at hst
      obtain rfl := Option.some.inj hst
      have hsame : Streams.session { w with up } = w.session := by
        simp only [Streams.session, hcalls, hlength]
      exact ⟨hsame ▸ h.session, h.down, hup'⟩
    · rw [hsome] at hst
      have hread :
          Streams.session { w with up } = { w.session with read := w.session.read + 1 } := by
        simp only [Streams.session, hcalls, hlength]
      have hsession : Session.lts.ReachableVia G ((Streams.session { w with up }).writes
          (w.ends.serverHears (ServerProxy.onWire call)).1
          (w.ends.serverHears (ServerProxy.onWire call)).2) := by
        refine .step h.session hadm (Option.map_eq_some_iff.2 ⟨call, hcall, ?_⟩)
        rw [hread]
        rfl
      obtain ⟨hsame, hkept, hdown⟩ :=
        writes_session (w := { w with up }) h.down (Session.ordered_of_runs (hsession.mono hG)) hst
      exact ⟨hsame ▸ hsession, hdown, hkept ▸ hup'⟩
  | clientHandles =>
    obtain ⟨down, hdown, hst⟩ := Option.bind_eq_some_iff.1 hst
    have hdown' : ClientConnection.dialect.lts.ReachableVia ClientConnection.dialect.Admits down :=
      .step h.down (l := .handle) trivial hdown
    obtain ⟨hcalls, hopen, ⟨hnone, hlength⟩ | ⟨call, hcall, hsome, hlength⟩⟩ :=
      handled_of_step ClientConnection.table.speaks h.down hdown
    · -- no whole message is there yet
      rw [hnone] at hst
      obtain rfl := Option.some.inj hst
      have hsame : Streams.session { w with down } = w.session := by
        simp only [Streams.session, hcalls, hlength]
      exact ⟨hsame ▸ h.session, hdown', h.up⟩
    · rw [hsome] at hst
      -- The client obeys the call as it reads it; a move is read as it was sent.
      have hobeys : w.session.obeys (ClientConnection.onWire call) = w.session.obeys call := by
        cases call <;> rfl
      have hheard : Streams.session { w with down, obeyed := w.obeyed ++ w.session.obeys call } =
          { w.session with
            heard := w.session.heard + 1
            obeyed := w.session.obeyed ++ w.session.obeys call } := by
        simp only [Streams.session, hcalls, hlength]
      have hsession : Session.lts.ReachableVia G
          ((Streams.session { w with down, obeyed := w.obeyed ++ w.session.obeys call }).replies
            (w.ends.clientHears (ClientConnection.onWire call)).1
            (w.ends.clientHears (ClientConnection.onWire call)).2) := by
        refine .step h.session hadm ?_
        show w.session.step .clientHears = _
        rw [Session.step, if_neg (by simp [Streams.session, h.disconnected_eq_false hG hopen])]
        refine Option.map_eq_some_iff.2 ⟨call, hcall, ?_⟩
        rw [hheard]
        rfl
      have hst' : replies { w with down, obeyed := w.obeyed ++ w.session.obeys call }
          (w.ends.clientHears (ClientConnection.onWire call)).1
          (w.ends.clientHears (ClientConnection.onWire call)).2 = some w' := by
        rw [← hobeys]
        exact hst
      obtain ⟨hsame, hkept, hup⟩ := replies_session
        (w := { w with down, obeyed := w.obeyed ++ w.session.obeys call }) h.up
        (Session.ordered_of_runs (hsession.mono hG)) hst'
      exact ⟨hsame ▸ hsession, hkept ▸ hdown', hup⟩

theorem linked_created {screen : Report} (hvalid : screen.Valid) (hw : created screen = some w) :
    Linked G w := by
  obtain ⟨hsame, hup, hdown⟩ := writes_session
    (w := ⟨{ screen }, ⟨{ parser := .handshake }, []⟩, [], ⟨{ parser := .handshake }, []⟩, []⟩)
    (.init rfl) (Session.ordered_start hvalid) hw
  exact ⟨hsame ▸ .init ⟨screen, hvalid, rfl⟩, hdown, hup ▸ .init rfl⟩

theorem linked_of_runs (hG : ∀ s ev, G s ev → Session.Admits s ev)
    (hs : lts.ReachableVia (Admits G) w) : Linked G w := by
  refine hs.invariant (I := Linked G) ?_ fun w ev w' h hadm hst => h.step hG hadm hst
  rintro w ⟨screen, hvalid, hw⟩
  exact linked_created hvalid hw

/-- **What is seen in the streams is a run of a session** whose messages wait in order. -/
theorem session_reachable (hs : lts.ReachableVia (Admits Session.Admits) w) :
    Session.lts.ReachableVia Session.Admits w.session :=
  (linked_of_runs (fun _ _ h => h) hs).session

theorem verdict_ne_disconnect (q : Parser) (call : ServerProxy.Call) :
    ServerProxy.dialect.verdict q call ≠ some .disconnect := by
  show ServerProxy.verdict q call ≠ some .disconnect
  cases call <;> cases q <;> simp only [ServerProxy.verdict] <;> simp

/-- No message of a client ends the connection for the server. -/
theorem after_ne_none {q : Parser} {calls : List ServerProxy.Call}
    (h : ServerProxy.dialect.Follows q calls) : ServerProxy.dialect.after q calls ≠ none := by
  induction calls generalizing q with
  | nil => simp [Dialect.after]
  | cons call calls ih =>
    have hother := verdict_ne_disconnect q call
    simp only [Dialect.Follows] at h
    simp only [Dialect.after]
    rcases hverdict : ServerProxy.dialect.verdict q call with _ | (next | _ | _)
    · simp [hverdict] at h
    · simp only [hverdict] at h
      exact ih h
    · simp [hverdict] at h
    · exact absurd hverdict hother

/-- **Neither end takes a message for invalid**, if the client sends nothing but reports before its
first report, however the streams are cut into segments and whatever happens first. -/
theorem no_error_of_runs (hs : lts.ReachableVia (Admits Session.Admits) w) :
    w.down.conversation.ending ≠ some .error ∧ w.up.conversation.ending = none := by
  have h := linked_of_runs (fun _ _ h => h) hs
  constructor
  · obtain ⟨done, hdone, -⟩ := ClientConnection.table.speaks.exists_handled h.down
    rcases hdone.parser with ⟨hopen, -⟩ | ⟨⟨code, values, hend⟩, -⟩
    · simp [hopen]
    · simp [hend]
  · obtain ⟨done, hdone, -⟩ := ServerProxy.table.speaks.exists_handled h.up
    rcases hdone.parser with ⟨hopen, -⟩ | ⟨-, hafter⟩
    · exact hopen
    · obtain ⟨later, hlater⟩ := hdone.calls
      have hfollows := (Session.ordered_of_runs h.session).up
      rw [show w.session.up = done ++ later from hlater.symm] at hfollows
      exact absurd hafter (after_ne_none hfollows.of_append)

/-- The client answers the question for its shape, is adopted and entered, and the mouse moves. -/
def oneMove : List Event :=
  [.downArrives [[0, 0, 0, 4, 81, 73, 78, 70]], .clientHandles,
    .upArrives [[0, 0, 0, 18, 68, 73, 78, 70, 0, 0, 0, 0, 7, 128, 4, 56, 0, 0, 0, 5, 0, 6]],
    .serverHandles, .server (.accept [] false), .server (.relay (.enter 3 4 1 0)),
    .server (.relay (.mouseMove 7 8)),
    .downArrives [[0, 0, 0, 4, 67, 73, 65, 75, 0, 0, 0, 4, 67, 82, 79, 80, 0, 0, 0, 8, 68, 83, 79,
        80, 0, 0],
      [0, 0, 0, 0, 0, 14, 67, 73, 78, 78, 0, 3, 0, 4, 0, 0, 0, 1, 0, 0, 0, 0, 0, 8, 68, 77, 77, 86,
        0, 7, 0, 8]],
    .clientHandles, .clientHandles, .clientHandles, .clientHandles, .clientHandles]

/-- The screen of the client. -/
def wide : Report := ⟨0, 0, 1920, 1080, 5, 6⟩

/-- The client has grabbed a clipboard before it was asked for its shape. -/
def grabFirst : List Event :=
  [.client (.send (.grabClipboard 0 0)), .upArrives [[0, 0, 0, 9, 67, 67, 76, 80, 0, 0, 0, 0, 0]],
    .serverHandles]

/-- A grab before the first report is a protocol error for the server. -/
theorem error_grabFirst :
    ¬∀ w : Streams, lts.Reachable w → w.up.conversation.ending = none := by
  intro h
  have hrun : ((created ⟨0, 0, 1920, 1080, 5, 6⟩).bind fun w => lts.exec w grabFirst).map
      (fun w => w.up.conversation.ending) = some (some .error) := by decide +kernel
  obtain ⟨w', hw', hend⟩ := Option.map_eq_some_iff.1 hrun
  obtain ⟨w, hw, hexec⟩ := Option.bind_eq_some_iff.1 hw'
  have hreachable : lts.Reachable w' := .of_exec ⟨_, by decide, hw⟩ hexec
  rw [h w' hreachable] at hend
  cases hend

/-- A run that was computed is a run. -/
theorem exists_run [∀ s ev, Decidable (G s ev)] (ls : List Event) (P : Streams → Bool)
    (h : ((created wide).bind fun w => lts.exec w ls).map P = some true)
    (hadm : ((created wide).map fun w => decide (lts.Admits (Admits G) w ls)) = some true) :
    ∃ w, lts.ReachableVia (Admits G) w ∧ P w = true := by
  obtain ⟨w', hw', hP⟩ := Option.map_eq_some_iff.1 h
  obtain ⟨w, hw, hrun⟩ := Option.bind_eq_some_iff.1 hw'
  rw [hw, Option.map_some, Option.some.injEq, decide_eq_true_eq] at hadm
  have hvalid : wide.Valid := by decide
  exact ⟨w', .of_exec (.init ⟨wide, hvalid, hw⟩) hadm hrun, hP⟩

theorem no_error_oneMove :
    ∃ w : Streams, w.obeyed.length = 1 ∧ w.down.conversation.ending ≠ some .error ∧
      w.up.conversation.ending = none := by
  obtain ⟨w, hs, hP⟩ := exists_run (G := Session.Admits) oneMove (fun w => w.obeyed.length == 1)
    (by decide +kernel) (by decide +kernel)
  exact ⟨w, beq_iff_eq.1 hP, no_error_of_runs hs⟩

/-- The client is adopted, and all messages were handled. -/
def adoption : List Event :=
  [.downArrives [[0, 0, 0, 4, 81, 73, 78, 70]], .clientHandles,
    .upArrives [[0, 0, 0, 18, 68, 73, 78, 70, 0, 0, 0, 0, 7, 128, 4, 56, 0, 0, 0, 5, 0, 6]],
    .serverHandles, .server (.accept [] false),
    .downArrives [[0, 0, 0, 4, 67, 73, 65, 75, 0, 0, 0, 4, 67, 82, 79, 80, 0, 0, 0, 8, 68, 83, 79,
        80, 0, 0, 0, 0]],
    .clientHandles, .clientHandles, .clientHandles]

/-- The server handles a report and sends a move, which the client handles. -/
def reportedMove : List Event :=
  [.upArrives [[0, 0, 0, 18, 68, 73, 78, 70, 0, 0, 0, 0, 4, 0, 3, 0, 0, 0, 0, 5, 0, 6]],
    .serverHandles, .server (.relay (.mouseMove 1000 700)),
    .downArrives [[0, 0, 0, 4, 67, 73, 65, 75, 0, 0, 0, 8, 68, 77, 77, 86, 3, 232, 2, 188]],
    .clientHandles, .clientHandles]

/-- The screen gets another shape, and the server sends a move for it. -/
def resizeOnce : List Event :=
  adoption ++ [.client (.resized 0 0 1024 768), .client .shapeChanged] ++ reportedMove

/-- The screen gets another shape twice, and the server sends a move for the first. -/
def resizeTwice : List Event :=
  adoption ++ [.client (.resized 0 0 1024 768), .client .shapeChanged,
    .client (.resized 0 0 800 600), .client .shapeChanged] ++ reportedMove

/-- A move can be for a shape that the screen has no more. -/
theorem exists_not_current :
    ∃ w, lts.ReachableVia (Admits Session.Admits) w ∧ ∃ p ∈ w.obeyed, ¬Session.Current p := by
  obtain ⟨w, hs, hP⟩ := exists_run (G := Session.Admits) resizeTwice (fun w =>
    w.obeyed == [(some ⟨0, 0, 800, 600, 5, 6⟩, some ⟨0, 0, 1024, 768, 5, 6⟩)])
    (by decide +kernel) (by decide +kernel)
  refine ⟨w, hs, _, beq_iff_eq.1 hP ▸ List.mem_singleton_self _, ?_⟩
  rintro ⟨r, t, hpair, hsame⟩
  obtain ⟨hr, ht⟩ := Prod.mk.inj hpair
  cases hr
  cases ht
  exact absurd hsame (by decide)

/-- **The moves that the client obeys** were sent when the server had the shape that the client has
reported last, if the screen gets another shape only when all reports were acknowledged, and not in
all other runs. -/
theorem obeyed_of_runs :
    (∀ w, lts.ReachableVia (Admits Session.AdmitsSettled) w →
      ∀ p ∈ w.obeyed, Session.Current p) ∧
    ¬∀ w, lts.ReachableVia (Admits Session.Admits) w → ∀ p ∈ w.obeyed, Session.Current p := by
  refine ⟨fun w hs => ?_, fun hall => ?_⟩
  · exact Session.obeyed_current (linked_of_runs (fun _ _ h => h.1) hs).session
  · obtain ⟨w, hs, p, hp, hnot⟩ := exists_not_current
    exact hnot (hall w hs p hp)

theorem obeyed_resizeOnce :
    ∃ w : Streams, w.obeyed.length = 1 ∧ w.session.reports.length = 2 ∧
      ∀ p ∈ w.obeyed, Session.Current p := by
  obtain ⟨w, hs, hP⟩ := exists_run (G := Session.AdmitsSettled) resizeOnce
    (fun w => w.obeyed.length == 1 && w.session.reports.length == 2) (by decide +kernel)
    (by decide +kernel)
  obtain ⟨hobeyed, hreports⟩ := Bool.and_eq_true_iff.1 hP
  exact ⟨w, beq_iff_eq.1 hobeyed, beq_iff_eq.1 hreports, obeyed_of_runs.1 w hs⟩

/-- All bytes of a connection have arrived and were handled. -/
def Quiet {C : Type} (s : Dialect.Link C) : Prop :=
  s.conversation.stream.wire = [] ∧ s.conversation.stream.filter.isReady = false

instance {C : Type} (s : Dialect.Link C) : Decidable (Quiet s) :=
  inferInstanceAs (Decidable (_ ∧ _))

theorem length_handled_of_quiet {C : Type} {d : Dialect C} {s : Dialect.Link C} (hd : d.Speaks)
    (hs : d.lts.ReachableVia d.Admits s) (hopen : s.conversation.ending = none) (h : Quiet s) :
    s.conversation.handled.length = s.calls.length := by
  obtain ⟨done, hdone, hall⟩ := hd.exists_handled hs
  rw [← d.length_received, hdone.received, List.length_map, hall hopen h.1 h.2]

/-- **When all bytes have arrived and were handled**, the ends agree about the shape and about how
far they are. -/
theorem agree_of_quiet (hs : lts.ReachableVia (Admits Session.Admits) w) (hdown : Quiet w.down)
    (hup : Quiet w.up) (hopen : w.down.conversation.ending = none) : Session.Agreed w.session := by
  have h := linked_of_runs (fun _ _ h => h) hs
  exact Session.agreed_of_runs h.session
    (length_handled_of_quiet ClientConnection.table.speaks h.down hopen hdown)
    (length_handled_of_quiet ServerProxy.table.speaks h.up (no_error_of_runs hs).2 hup)

theorem agree_oneMove :
    ∃ w : Streams, Session.Agreed w.session ∧ w.session.ends.stage = .adopted := by
  obtain ⟨w, hs, hP⟩ := exists_run (G := Session.Admits) oneMove (fun w =>
    decide (Quiet w.down ∧ Quiet w.up ∧ w.down.conversation.ending = none ∧
      w.session.ends.stage = .adopted)) (by decide +kernel) (by decide +kernel)
  obtain ⟨hdown, hup, hopen, hstage⟩ := of_decide_eq_true hP
  exact ⟨w, agree_of_quiet hs hdown hup hopen, hstage⟩

end Streams

end InputLeap
