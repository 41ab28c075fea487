import InputLeap.Net.ClientCalls

/-!
# A session of a server and a client

Behind the hello, a `ClientProxy1_7` of the server and the `ServerProxy` of a client send each other
messages on two streams.  Each end reacts to what it reads, and both make calls of their own: the
server relays input to a screen that it has adopted, the client reports the shape of its screen.

## Main definitions

* `Session.Ends` : the state of the two ends.
* `Session.Ends.serverActs`, `Session.Ends.clientActs` : what an end does of its own.
* `Session.Ends.serverHears`, `Session.Ends.clientHears` : what it does with a message.
* `Session.lts` : the runs of a session in which messages wait in order.
-/

namespace InputLeap

namespace Session

/-- What the client reports about its screen (`ClientInfo`). -/
structure Report where
  x : Int32
  y : Int32
  w : Int32
  h : Int32
  mx : Int32
  my : Int32
  deriving DecidableEq

namespace Report

/-- `ServerProxy::sendInfo`. -/
def call (r : Report) : ServerProxy.Call := .sendInfo r.x r.y r.w r.h r.mx r.my

/-- The report in a call, if it is one. -/
def ofCall? : ServerProxy.Call → Option Report
  | .sendInfo x y w h mx my => some ⟨x, y, w, h, mx, my⟩
  | _ => none

/-- What the server saves of a report. -/
def onWire (r : Report) : Report :=
  (ServerProxy.infoMessage r.x r.y r.w r.h r.mx r.my).stored.elim r fun s =>
    ⟨.ofInt s.x, .ofInt s.y, .ofInt s.w, .ofInt s.h, .ofInt s.mx, .ofInt s.my⟩

/-- The width and the height are positive in 16 bits. -/
def Valid (r : Report) : Prop := 0 < r.w.toInt16.toInt ∧ 0 < r.h.toInt16.toInt

instance (r : Report) : Decidable r.Valid := inferInstanceAs (Decidable (_ ∧ _))

/-- The two are about the same shape. -/
def SameShape (r t : Report) : Prop := r.x = t.x ∧ r.y = t.y ∧ r.w = t.w ∧ r.h = t.h

instance (r t : Report) : Decidable (r.SameShape t) := inferInstanceAs (Decidable (_ ∧ _))

end Report

/-- How far the server is with a client. -/
inductive Stage
  /-- The proxy waits for the first report. -/
  | unknown
  /-- `CLIENT_PROXY_READY` was posted. -/
  | ready
  /-- `Server::adoptClient` has added the client. -/
  | adopted
  /-- `Server::closeClient` has told the client to close. -/
  | closed
  deriving DecidableEq

/-- The two ends. -/
structure Ends where
  stage : Stage := .unknown
  /-- What the proxy has saved (`m_info`). -/
  saved : Option Report := none
  /-- The screen of the client as it is. -/
  screen : Report
  /-- The client ignores moves of the mouse (`m_ignoreMouse`). -/
  ignoring : Bool := false
  /-- The client has disconnected. -/
  disconnected : Bool := false

/-- What the server does of its own. -/
inductive ServerAct
  /-- `ClientProxy1_6::keepAlive`, when its timer is due or with a chunk of a clipboard. -/
  | keepAlive
  /-- `adoptClient` refuses the name. -/
  | refuse (msg : CloseMessage)
  /-- `adoptClient` adds the client; the screen saver may be active. -/
  | accept (options : List UInt32) (saver : Bool)
  /-- A call on a screen that was adopted. -/
  | relay (call : ClientConnection.Call)
  /-- `closeClient` for a client that was adopted. -/
  | close

/-- What the client does of its own. -/
inductive ClientAct
  /-- The cursor moves. -/
  | moved (mx my : Int32)
  /-- The screen gets another shape. -/
  | resized (x y w h : Int32)
  /-- `handle_shape_changed`. -/
  | shapeChanged
  /-- Clipboards and files are sent. -/
  | send (call : ServerProxy.Call)

/-- The call is one that the server makes on a screen. -/
def relays : ClientConnection.Call → Bool
  | .queryInfo | .infoAck | .keepAlive | .close _ => false
  | _ => true

/-- The call is about clipboards or files. -/
def sends : ServerProxy.Call → Bool
  | .sendInfo .. | .keepAlive => false
  | _ => true

/-- The calls of `adoptClient` on a client that it adds. -/
def welcome (options : List UInt32) (saver : Bool) : List ClientConnection.Call :=
  [.resetOptions, .setOptions options] ++ if saver then [.screensaver true] else []

namespace Ends

variable (e : Ends)

/-- An action of the server and the calls that it makes. -/
def serverActs : ServerAct → Option (Ends × List ClientConnection.Call)
  | .keepAlive => if e.stage ≠ .unknown then some (e, [.keepAlive]) else none
  | .refuse msg =>
    if e.stage = .ready ∧ msg ≠ .close then some ({ e with stage := .closed }, [.close msg])
    else none
  | .accept options saver =>
    if e.stage = .ready then some ({ e with stage := .adopted }, welcome options saver) else none
  | .relay call => if e.stage = .adopted ∧ relays call then some (e, [call]) else none
  | .close =>
    if e.stage = .adopted then some ({ e with stage := .closed }, [.close .close]) else none

/-- What the proxy does with a message, and its answer. -/
def serverHears : ServerProxy.Call → Ends × List ClientConnection.Call
  | .sendInfo x y w h mx my =>
    -- only the first report makes the proxy ready
    ({ e with
      saved := some ⟨x, y, w, h, mx, my⟩
      stage := if e.stage = .unknown then .ready else e.stage }, [.infoAck])
  | _ => (e, [])

/-- An action of the client and the calls that it makes. -/
def clientActs : ClientAct → Option (Ends × List ServerProxy.Call)
  | .moved mx my => some ({ e with screen := { e.screen with mx, my } }, [])
  | .resized x y w h => some ({ e with screen := { e.screen with x, y, w, h } }, [])
  | .shapeChanged =>
    if e.disconnected then none else some ({ e with ignoring := true }, [e.screen.call])
  | .send call => if e.disconnected = false ∧ sends call then some (e, [call]) else none

/-- What the client does with a message, and its answer. -/
def clientHears : ClientConnection.Call → Ends × List ServerProxy.Call
  | .queryInfo => (e, [e.screen.call])
  | .keepAlive => (e, [.keepAlive])
  | .infoAck => ({ e with ignoring := false }, [])
  | .close _ => ({ e with disconnected := true }, [])
  | _ => (e, [])

end Ends

end Session

/-- A session: the ends, the calls of each, and how many of them the other end has handled. -/
structure Session where
  ends : Session.Ends
  /-- The calls of the server, oldest first. -/
  down : List ClientConnection.Call
  /-- What the server had saved when it made each of them. -/
  marks : List (Option Session.Report)
  heard : ℕ := 0
  /-- The calls of the client, oldest first. -/
  up : List ServerProxy.Call
  read : ℕ := 0
  /-- For each move that the client has obeyed: its last report, and what the server had saved when
  it sent the move. -/
  obeyed : List (Option Session.Report × Option Session.Report) := []

namespace Session

/-- What can happen in a session. -/
inductive Event
  | server (act : ServerAct)
  | client (act : ClientAct)
  /-- The server handles the next message. -/
  | serverHears
  /-- The client handles the next message. -/
  | clientHears

variable (s : Session)

/-- The reports of the client, oldest first. -/
def reports : List Report := s.up.filterMap Report.ofCall?

/-- The server makes calls. -/
def writes (e : Ends) (calls : List ClientConnection.Call) : Session :=
  { s with
    ends := e
    down := s.down ++ calls
    marks := s.marks ++ calls.map fun _ => e.saved }

/-- The client makes calls. -/
def replies (e : Ends) (calls : List ServerProxy.Call) : Session :=
  { s with ends := e, up := s.up ++ calls }

/-- The move of the mouse that the client obeys, if the message is one. -/
def obeys : ClientConnection.Call → List (Option Report × Option Report)
  | .mouseMove .. =>
    if s.ends.ignoring then [] else [(s.reports.getLast?, (s.marks[s.heard]?).join)]
  | _ => []

/-- One step.  The client handles nothing more when it has disconnected. -/
def step (s : Session) : Event → Option Session
  | .server act => (s.ends.serverActs act).map fun r => s.writes r.1 r.2
  | .client act => (s.ends.clientActs act).map fun r => s.replies r.1 r.2
  | .serverHears =>
    (s.up[s.read]?).map fun call =>
      let r := s.ends.serverHears (ServerProxy.onWire call)
      { s with read := s.read + 1 }.writes r.1 r.2
  | .clientHears =>
    if s.ends.disconnected then none
    else
      (s.down[s.heard]?).map fun call =>
        let r := s.ends.clientHears (ClientConnection.onWire call)
        { s with heard := s.heard + 1, obeyed := s.obeyed ++ s.obeys call }.replies r.1 r.2

/-- The proxy has just been created; its constructor asks for the shape. -/
def start (screen : Report) : Session where
  ends := { screen }
  down := [.queryInfo]
  marks := [none]
  up := []

/-- The runs of a session. -/
def lts : LTS Session Event where
  init s := ∃ screen : Report, screen.Valid ∧ s = start screen
  step := step

/-- Nothing is sent but reports before the first report, and what is sent is within the limits; the
screen keeps a positive size. -/
def Admits (s : Session) : Event → Prop
  | .server (.accept options _) => ClientConnection.Fit (.setOptions options)
  | .server (.relay call) => ClientConnection.Fit call
  | .client (.resized _ _ w h) => 0 < w.toInt16.toInt ∧ 0 < h.toInt16.toInt
  | .client (.send call) =>
    s.up ≠ [] ∧ ServerProxy.Fit call ∧
      ServerProxy.verdict .message call = some (.okay .message)
  | _ => True

instance (s : Session) : ∀ e, Decidable (Admits s e)
  | .server (.accept options _) =>
    inferInstanceAs (Decidable (ClientConnection.Fit (.setOptions options)))
  | .server (.relay call) => inferInstanceAs (Decidable (ClientConnection.Fit call))
  | .client (.resized ..) => inferInstanceAs (Decidable (_ ∧ _))
  | .client (.send _) => inferInstanceAs (Decidable (_ ∧ _ ∧ _))
  | .server .keepAlive | .server (.refuse _) | .server .close | .client (.moved ..)
  | .client .shapeChanged | .serverHears | .clientHears => .isTrue trivial

end Session

end InputLeap
