import InputLeap.Config.Basic
import InputLeap.FileClip.Basic
import InputLeap.LTS.Basic
import Mathlib.Tactic.SplitIfs

/-!
# The state of the server

The members of `Server`, grouped by what uses them, the proxies of the connected screens, and
what the server asks of its surroundings while it handles one event.

## Main definitions

* `ClientID` : a proxy object.  The primary screen's is `primaryClient`; those of the clients are
  numbered in the order in which they connect and are never used again.
* `Registry`, `Focus`, `Pending`, `Mouse`, `SwitchOptions`, `ClipboardInfo`, `FilePaste` : groups
  of members.
* `Server` : the members and the proxies.
* `Log` : the calls made on the proxies.
* `Env` : the answers of the surroundings.
* `Keeps` : the configuration, the options, the registry and the pastes stay as they are.
-/

namespace InputLeap

/-- A proxy object (`BaseClientProxy*`). -/
abbrev ClientID := ℕ

/-- The proxy of the primary screen (`m_primaryClient`). -/
def primaryClient : ClientID := 0

/-- What never changes about a proxy. -/
structure Ident where
  /-- The name it connected with. -/
  name : String
  /-- It speaks a protocol version with file pastes. -/
  supportsFilePaste : Bool
  deriving DecidableEq

/-- The shape of a screen and the position of its cursor (`ClientInfo`). -/
structure ScreenInfo where
  x : ℤ
  y : ℤ
  w : ℤ
  h : ℤ
  mx : ℤ
  my : ℤ
  deriving DecidableEq

/-- A clipboard of a proxy. -/
structure ClientClipboard where
  /-- The content sent to the client or received from it last. -/
  clipboard : Clipboard
  sequenceNumber : ℕ
  /-- The client does not have the content the server stores. -/
  dirty : Bool

/-- What can change about a proxy.  For the primary screen `info` is the state of the platform
screen, and of the clipboards only `dirty` is used. -/
structure Proxy where
  info : ScreenInfo
  /-- Where to put the cursor when a hotkey switches to the screen. -/
  jumpCursorPos : ℤ × ℤ
  clipboard : ClipboardID → ClientClipboard

/-- The proxies and how they are registered. -/
structure Registry where
  /-- The connected screens by name (`m_clients`). -/
  clients : Std.TreeMap String ClientID
  /-- The connected screens (`m_clientSet`). -/
  clientSet : Std.TreeSet ClientID
  /-- The clients that were told to disconnect (`m_oldClients`). -/
  oldClients : Std.TreeSet ClientID
  /-- The clients that completed the handshake and are not adopted yet. -/
  waiting : Std.TreeSet ClientID
  /-- The next proxy to be created. -/
  next : ClientID
  ident : ClientID → Ident

/-- Some name is registered for the screen. -/
def Registry.Registered (r : Registry) (c : ClientID) : Prop :=
  ∃ name : String, r.clients[name]? = some c

/-- Where the cursor is. -/
structure Focus where
  active : ClientID
  /-- The screen that was active when the screen saver started. -/
  activeSaver : Option ClientID
  xSaver : ℤ
  ySaver : ℤ

/-- A switch that waits for a timer or a second tap. -/
structure Pending where
  switchScreen : Option ClientID
  /-- `none` is `kNoDirection`. -/
  switchDir : Option Direction
  waitX : ℤ
  waitY : ℤ
  /-- The wait timer runs. -/
  waitTimer : Bool
  twoTapEngaged : Bool
  twoTapArmed : Bool
  /-- When the double tap timer was reset. -/
  twoTapTimer : ℚ
  deriving DecidableEq

/-- The position of the cursor and its last two motions. -/
structure Mouse where
  x : ℤ
  y : ℤ
  xDelta : ℤ
  yDelta : ℤ
  xDelta2 : ℤ
  yDelta2 : ℤ

/-- The options that the server keeps a copy of. -/
structure SwitchOptions where
  /-- In seconds. -/
  waitDelay : ℚ
  /-- In seconds. -/
  twoTapDelay : ℚ
  needsShift : Bool
  needsControl : Bool
  needsAlt : Bool
  relativeMoves : Bool
  enableClipboard : Bool
  maximumClipboardSize : ℕ
  deriving DecidableEq

/-- A clipboard that is shared. -/
structure ClipboardInfo where
  clipboard : Clipboard
  /-- The marshalled content. -/
  data : Bytes
  /-- The name of the screen that grabbed it last. -/
  owner : String
  seqNum : ℕ

/-- A file paste in progress: the names of its two ends. -/
structure FilePaste where
  target : String
  source : String
  deriving DecidableEq

/-- State of dragging files between screens. -/
structure Drag where
  enableDragDrop : Bool
  waitDragInfoThread : Bool
  sendDragInfoThread : Bool

/-- A call that concerns which screen is entered or what its clipboards hold. -/
inductive ScreenCall
  | enter (c : ClientID) (x y : ℤ) (seqNum mask : ℕ) (forScreensaver : Bool)
  /-- `left` is the result. -/
  | leave (c : ClientID) (left : Bool)
  /-- The content got past the dirty flag. -/
  | setClipboard (c : ClientID) (id : ClipboardID) (clipboard : Clipboard)
  | grabClipboard (c : ClientID) (id : ClipboardID)

/-- A call that concerns file pastes. -/
inductive PasteCall
  /-- A screen asked to paste files. -/
  | requested (c : ClientID) (request : String)
  | sendFiles (c : ClientID) (request : FilePasteRequest)
  | status (c : ClientID) (status : FilePasteStatus)
  deriving DecidableEq

/-- Any other call on a proxy, and the events that the server posts. -/
inductive Notice
  | mouseMove (c : ClientID) (x y : ℤ)
  | mouseRelativeMove (c : ClientID) (dx dy : ℤ)
  | screensaver (c : ClientID) (activated : Bool)
  | resetOptions (c : ClientID)
  | setOptions (c : ClientID) (options : List ℕ)
  | close (c : ClientID) (msg : String)
  | reconfigure (activeSides : ℕ)
  | serverConnected (name : String)
  | serverDisconnected
  | serverScreenSwitched (name : String)

/-- What the server did so far, newest first. -/
structure Log where
  screens : List ScreenCall
  pastes : List PasteCall
  notices : List Notice
  /-- The screens and positions that `mapToNeighbor` found. -/
  mapped : List (ClientID × ℤ × ℤ)

/-- The server. -/
structure Server where
  /-- The configuration object, shared with `ServerApp`. -/
  config : Config
  /-- The active rules (`input_filter_`). -/
  filterRules : List InputFilter.Rule
  registry : Registry
  focus : Focus
  pending : Pending
  mouse : Mouse
  options : SwitchOptions
  clipboards : ClipboardID → ClipboardInfo
  filePastes : Std.TreeMap String FilePaste
  proxies : ClientID → Proxy
  /-- The number of the last enter. -/
  seqNum : ℕ
  lockedToScreen : Bool
  drag : Drag
  log : Log

/-- The answers of the platform screen and the clock while one event is handled. -/
structure Env where
  now : ℚ := 0
  /-- The modifiers that are down or toggled on. -/
  toggleMask : ℕ := 0
  /-- The platform screen says that the cursor is locked to it. -/
  lockedToScreen : Bool := false
  /-- The platform screen can be left. -/
  canLeave : Bool := true
  jumpZoneSize : ℤ := 0
  cursorCenter : ℤ × ℤ := (0, 0)
  /-- The platform clipboards, if they can be read. -/
  clipboard : ClipboardID → Option Clipboard := fun _ => none
  draggingStarted : Bool := false
  /-- The steps that a search for neighbours may take. -/
  fuel : ℕ := 0

namespace Server

variable (s : Server)

/-! ### The log -/

/-- Notes calls that concern screens. -/
def callScreen (k : ScreenCall) : Server :=
  { s with log := { s.log with screens := k :: s.log.screens } }

/-- Notes calls that concern file pastes. -/
def callPaste (k : PasteCall) : Server :=
  { s with log := { s.log with pastes := k :: s.log.pastes } }

/-- Notes any other call. -/
def notice (k : Notice) : Server :=
  { s with log := { s.log with notices := k :: s.log.notices } }

/-! ### Names and lookups -/

/-- The canonical name of a screen, or the name it connected with if it is not in the
configuration. -/
def getName (c : ClientID) : String :=
  let name := s.config.getCanonicalName (s.registry.ident c).name
  if name = "" then (s.registry.ident c).name else name

/-- The connected screens in the order of their names. -/
def clientList : List ClientID := s.registry.clients.toList.map Prod.snd

/-- The screen counts as active for the purposes of leaving it by force. -/
def focusClient : ClientID := s.focus.activeSaver.getD s.focus.active

/-! ### Calls on proxies -/

/-- Changes a proxy. -/
def setProxy (c : ClientID) (p : Proxy) : Server :=
  { s with proxies := Function.update s.proxies c p }

/-- Changes a clipboard of a proxy. -/
def setClientClipboard (c : ClientID) (id : ClipboardID) (cc : ClientClipboard) : Server :=
  s.setProxy c { s.proxies c with clipboard := Function.update (s.proxies c).clipboard id cc }

/-- `enter` of a proxy. -/
def enterClient (env : Env) (c : ClientID) (x y : ℤ) (forScreensaver : Bool) : Server :=
  s.callScreen (.enter c x y s.seqNum env.toggleMask forScreensaver)

/-- The result of `leave` of a proxy: only the primary screen can refuse. -/
def canLeave (env : Env) (c : ClientID) : Bool := if c = primaryClient then env.canLeave else true

/-- `leave` of a proxy. -/
def leaveClient (env : Env) (c : ClientID) : Server := s.callScreen (.leave c (canLeave env c))

/-- `getClipboard` of a proxy: the primary screen reads its platform clipboard. -/
def getClipboard (env : Env) (c : ClientID) (id : ClipboardID) : Option Clipboard :=
  if c = primaryClient then env.clipboard id
  else some ((s.proxies c).clipboard id).clipboard.copy

/-- `setClipboard` of a proxy: nothing is done if the clipboard is clean. -/
def setClipboard (c : ClientID) (id : ClipboardID) (clipboard : Clipboard) : Server :=
  let cc := (s.proxies c).clipboard id
  if cc.dirty then
    (s.setClientClipboard c id { cc with dirty := false, clipboard := clipboard.copy }).callScreen
      (.setClipboard c id clipboard.copy)
  else s

/-- `grabClipboard` of a proxy. -/
def grabClipboard (c : ClientID) (id : ClipboardID) : Server :=
  let cc := (s.proxies c).clipboard id
  (s.callScreen (.grabClipboard c id)).setClientClipboard c id { cc with dirty := true }

/-- `setClipboardDirty` of a proxy. -/
def setClipboardDirty (c : ClientID) (id : ClipboardID) (dirty : Bool) : Server :=
  let cc := (s.proxies c).clipboard id
  s.setClientClipboard c id { cc with dirty := dirty }

/-! ### Frames -/

/-- The members that moving the cursor and sharing clipboards leave alone. -/
structure Keeps (s s' : Server) : Prop where
  config : s'.config = s.config
  filterRules : s'.filterRules = s.filterRules
  registry : s'.registry = s.registry
  options : s'.options = s.options
  filePastes : s'.filePastes = s.filePastes
  lockedToScreen : s'.lockedToScreen = s.lockedToScreen
  pastes : s'.log.pastes = s.log.pastes

namespace Keeps

variable {s} {s' s'' : Server}

theorem refl (s : Server) : Keeps s s := ⟨rfl, rfl, rfl, rfl, rfl, rfl, rfl⟩

theorem trans (h : Keeps s s') (h' : Keeps s' s'') : Keeps s s'' :=
  ⟨h'.config.trans h.config, h'.filterRules.trans h.filterRules, h'.registry.trans h.registry,
    h'.options.trans h.options, h'.filePastes.trans h.filePastes,
    h'.lockedToScreen.trans h.lockedToScreen, h'.pastes.trans h.pastes⟩

theorem getName (h : Keeps s s') (c : ClientID) : s'.getName c = s.getName c := by
  simp only [Server.getName, h.config, h.registry]

theorem clientList (h : Keeps s s') : s'.clientList = s.clientList := by
  simp only [Server.clientList, h.registry]

theorem foldl {α : Type*} {f : Server → α → Server} (hf : ∀ s a, Keeps s (f s a)) (l : List α)
    (s : Server) : Keeps s (l.foldl f s) := by
  induction l generalizing s with
  | nil => exact refl s
  | cons a l ih => exact (hf s a).trans (ih _)

end Keeps

theorem keeps_setClipboardDirty (c : ClientID) (id : ClipboardID) (dirty : Bool) :
    Keeps s (s.setClipboardDirty c id dirty) := ⟨rfl, rfl, rfl, rfl, rfl, rfl, rfl⟩

theorem keeps_grabClipboard (c : ClientID) (id : ClipboardID) : Keeps s (s.grabClipboard c id) :=
  ⟨rfl, rfl, rfl, rfl, rfl, rfl, rfl⟩

theorem keeps_setClipboard (c : ClientID) (id : ClipboardID) (clipboard : Clipboard) :
    Keeps s (s.setClipboard c id clipboard) := by
  simp only [setClipboard]
  split_ifs
  · exact ⟨rfl, rfl, rfl, rfl, rfl, rfl, rfl⟩
  · exact .refl s

end Server

end InputLeap
