import InputLeap.Server.Registry

/-!
# The server as a transition system

## Main definitions

* `Server.create` : the server that the constructor makes.
* `Server.Event`, `Server.step` : the events that the server handles, one after the other.
* `Server.lts` : the runs of a server.
-/

namespace InputLeap

namespace Server

/-- The pending switch before any motion. -/
def noPending : Pending :=
  { switchScreen := none, switchDir := none, waitX := 0, waitY := 0, waitTimer := false,
    twoTapEngaged := false, twoTapArmed := false, twoTapTimer := 0 }

/-- A proxy of a screen that has just connected.  A client does not have the clipboards; the
primary screen does. -/
def newProxy (info : ScreenInfo) (dirty : Bool) : Proxy :=
  { info := info, jumpCursorPos := (0, 0), clipboard := fun _ => ⟨Clipboard.clear 0, 0, dirty⟩ }

/-- The members before the constructor's body. -/
def blank (cfg : Config) (primary : Ident) (info : ScreenInfo) (enableDragDrop : Bool) : Server :=
  { config := cfg
    filterRules := cfg.inputFilterRules
    registry :=
      { clients := ∅, clientSet := ∅, oldClients := ∅, waiting := ∅, next := 1
        ident := fun _ => primary }
    focus := ⟨primaryClient, none, 0, 0⟩
    pending := noPending
    mouse := ⟨0, 0, 0, 0, 0, 0⟩
    options := .initial
    clipboards := fun _ => ⟨Clipboard.clear 0, (Clipboard.clear 0).marshall, "", 0⟩
    filePastes := ∅
    proxies := fun _ => newProxy info false
    seqNum := 0
    lockedToScreen := false
    drag := ⟨enableDragDrop, true, false⟩
    log := ⟨[], [], [], []⟩ }

/-- The server before the primary screen is registered; it owns the clipboards. -/
def unregistered (cfg : Config) (primary : Ident) (info : ScreenInfo) (enableDragDrop : Bool) :
    Server :=
  let s := blank cfg primary info enableDragDrop
  { s with clipboards := fun id => { s.clipboards id with owner := s.getName primaryClient } }

/-- The server that the constructor makes; `none` if the primary screen is not in the
configuration. -/
def create (env : Env) (cfg : Config) (primary : Ident) (info : ScreenInfo)
    (enableDragDrop : Bool) : Option Server :=
  ((unregistered cfg primary info enableDragDrop).addClient primaryClient).bind fun s =>
    (s.setConfig env).map fun s =>
      { s with lockedToScreen := env.toggleMask &&& keyModifierScrollLock != 0 }

/-- The events that the server or a proxy handles.  Those about a screen carry its proxy. -/
inductive Event
  /-- A client completed the handshake. -/
  | clientConnected (ident : Ident) (info : ScreenInfo)
  | adoptClient (c : ClientID)
  | clientDisconnected (c : ClientID)
  /-- A client took too long to disconnect. -/
  | clientCloseTimeout (c : ClientID)
  /-- The configuration object gets new content and the server is asked to apply it. -/
  | reloadConfig (cfg : Config)
  | disconnect
  | screensaver (activated : Bool)
  | switchToScreen (screen : String)
  | toggleScreen
  | switchInDirection (dir : Direction)
  | lockCursorToScreen (mode : InputFilter.Mode)
  | motionPrimary (x y : ℤ)
  | motionSecondary (dx dy : ℤ)
  /-- The wait timer fired. -/
  | switchWait
  /-- A screen's shape or cursor position is known anew. -/
  | info (c : ClientID) (info : ScreenInfo)
  | shapeChanged (c : ClientID)
  | clipboardGrabbed (c : ClientID) (id : ClipboardID) (seqNum : ℕ)
  /-- A client's clipboard was received. -/
  | clipboardReceived (c : ClientID) (id : ClipboardID) (seqNum : ℕ) (data : Bytes)
  | clipboardChanged (c : ClientID) (id : ClipboardID) (seqNum : ℕ)
  | filePasteRequested (c : ClientID) (request : FilePasteRequest)
  | filePasteStatus (c : ClientID) (status : FilePasteStatus)
  | mouseDown
  /-- The thread that sends what is dragged ended. -/
  | dragInfoSent

variable (s : Server)

/-- The proxy exists. -/
def Alive (c : ClientID) : Prop :=
  c ∈ s.registry.clientSet ∨ c ∈ s.registry.oldClients ∨ c ∈ s.registry.waiting

instance (c : ClientID) : Decidable (s.Alive c) := inferInstanceAs (Decidable (_ ∨ _ ∨ _))

/-- A new proxy, for a client that completed the handshake. -/
def clientConnected (ident : Ident) (info : ScreenInfo) : Server :=
  let c := s.registry.next
  { s with
    registry := { s.registry with
      next := c + 1
      waiting := s.registry.waiting.insert c
      ident := Function.update s.registry.ident c ident }
    proxies := Function.update s.proxies c (newProxy info true) }

/-- Gives the configuration object new content and asks the server to apply it; whether it does
is not looked at. -/
def reloadConfig (env : Env) (cfg : Config) : Server :=
  let s := { s with config := cfg }
  (s.setConfig env).getD s

/-- A client's clipboard was received (`recvClipboard`); `none` reads past the end of the data. -/
def clipboardReceived (c : ClientID) (id : ClipboardID) (seqNum : ℕ) (data : Bytes) :
    Option Server :=
  (Clipboard.unmarshall data 0).map fun clipboard =>
    s.setClientClipboard c id
      { (s.proxies c).clipboard id with clipboard := clipboard, sequenceNumber := seqNum }

/-- Handles one event.  Events of a proxy need the proxy to exist, a client is adopted once, the
primary screen does not disconnect, and the wait timer fires only when it runs. -/
def step (env : Env) : Event → Option Server
  | .clientConnected ident info => some (s.clientConnected ident info)
  | .adoptClient c => if c ∈ s.registry.waiting then some (s.adoptClient env c) else none
  | .clientDisconnected c =>
    if c ∈ s.registry.waiting then
      some { s with registry := { s.registry with waiting := s.registry.waiting.erase c } }
    else if c ≠ primaryClient ∧ s.Alive c then some (s.handleClientDisconnected env c)
    else none
  | .clientCloseTimeout c =>
    if c ∈ s.registry.oldClients then some (s.removeOldClient c) else none
  | .reloadConfig cfg => some (s.reloadConfig env cfg)
  | .disconnect => some (s.disconnect env)
  | .screensaver activated => some (s.onScreensaver env activated)
  | .switchToScreen screen => some (s.handleSwitchToScreenEvent env screen)
  | .toggleScreen => some (s.handleToggleScreenEvent env)
  | .switchInDirection dir => s.handleSwitchInDirectionEvent env dir
  | .lockCursorToScreen mode => some (s.handleLockCursorToScreenEvent mode)
  | .motionPrimary x y => s.onMouseMovePrimary env x y
  | .motionSecondary dx dy => s.onMouseMoveSecondary env dx dy
  | .switchWait => if s.pending.waitTimer then s.handleSwitchWaitEvent env else none
  | .info c info => some (s.setProxy c { s.proxies c with info := info })
  | .shapeChanged c => s.handleShapeChanged env c
  | .clipboardGrabbed c id seqNum => some (s.handleClipboardGrabbed c id seqNum)
  | .clipboardReceived c id seqNum data =>
    if c ≠ primaryClient ∧ s.Alive c then s.clipboardReceived c id seqNum data else none
  | .clipboardChanged c id seqNum => some (s.handleClipboardChanged env c id seqNum)
  | .filePasteRequested c request =>
    if s.Alive c then some (s.filePasteRequested c request) else none
  | .filePasteStatus c status => if s.Alive c then some (s.filePasteStatus c status) else none
  | .mouseDown => some { s with drag := { s.drag with waitDragInfoThread := true } }
  | .dragInfoSent =>
    some { s with drag :=
      { s.drag with waitDragInfoThread := false, sendDragInfoThread := false } }

/-- The runs of a server: events with the answers of the surroundings while each is handled. -/
def lts : LTS Server (Env × Event) where
  init s := ∃ env cfg primary info enableDragDrop,
    create env cfg primary info enableDragDrop = some s
  step s l := s.step l.1 l.2

/-- The state after a run from the server that the constructor makes. -/
def run (env : Env) (cfg : Config) (primary : Ident) (info : ScreenInfo) (enableDragDrop : Bool)
    (events : List (Env × Event)) : Option Server :=
  (create env cfg primary info enableDragDrop).bind fun s => lts.exec s events

section run

variable {env : Env} {cfg : Config} {primary : Ident} {info : ScreenInfo} {enableDragDrop : Bool}
  {events : List (Env × Event)} {s : Server} {G : Server → Env × Event → Prop}

theorem reachableVia_of_run (h : run env cfg primary info enableDragDrop events = some s)
    (hG : ∀ s₀ ∈ create env cfg primary info enableDragDrop, lts.Admits G s₀ events) :
    lts.ReachableVia G s := by
  obtain ⟨s₀, hcreate, hexec⟩ := Option.bind_eq_some_iff.1 h
  exact .of_exec (.init ⟨env, cfg, primary, info, enableDragDrop, hcreate⟩) (hG s₀ hcreate) hexec

theorem reachable_of_run (h : run env cfg primary info enableDragDrop events = some s) :
    lts.Reachable s :=
  reachableVia_of_run h fun s₀ _ => LTS.admits_true s₀ events

end run

end Server

end InputLeap
