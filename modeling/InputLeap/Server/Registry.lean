import InputLeap.Server.Switch

/-!
# Connecting and disconnecting screens

The functions of `Server` that add and remove screens, apply a configuration, and pass file
pastes between screens.

## Main definitions

* `addClient`, `removeClient`, `closeClient`, `forceLeaveClient`, ... : the registry.
* `processOptions`, `setConfig` : applying a configuration.
* `filePasteRequested`, `filePasteStatus`, `endFilePastes` : file pastes.
-/

namespace InputLeap

/-! ### Options -/

namespace SwitchOptions

/-- The values that the constructor sets. -/
def initial : SwitchOptions :=
  { waitDelay := 0, twoTapDelay := 0, needsShift := false, needsControl := false,
    needsAlt := false, relativeMoves := false, enableClipboard := true,
    maximumClipboardSize := 2147483647 }

/-- A delay in seconds from an option in milliseconds. -/
def delay (value : ℤ) : ℚ := if value < 0 then 0 else value / 1000

/-- Applies one option of the configuration. -/
def process (o : SwitchOptions) (option : OptionID × ℤ) : SwitchOptions :=
  let (id, value) := option
  match id with
  | .screenSwitchDelay => { o with waitDelay := delay value }
  | .screenSwitchTwoTap => { o with twoTapDelay := delay value }
  | .screenSwitchNeedsControl => { o with needsControl := value != 0 }
  | .screenSwitchNeedsShift => { o with needsShift := value != 0 }
  | .screenSwitchNeedsAlt => { o with needsAlt := value != 0 }
  | .relativeMouseMoves => { o with relativeMoves := value != 0 }
  | .clipboardSharing => { o with enableClipboard := value != 0 }
  | .clipboardSharingSize => { o with maximumClipboardSize := value.toNat }
  | _ => o

/-- Applies the options of a configuration.  Only the required modifiers go back to their
defaults when the configuration does not set them. -/
def processAll (o : SwitchOptions) (options : ScreenOptions) : SwitchOptions :=
  options.toList.foldl process
    { o with needsShift := false, needsControl := false, needsAlt := false }

end SwitchOptions

/-- Stops what an option that is set restarts. -/
def Pending.process (p : Pending) (option : OptionID × ℤ) : Pending :=
  match option.1 with
  | .screenSwitchDelay => p.stopSwitchWait
  | .screenSwitchTwoTap => p.stopSwitchTwoTap
  | _ => p

/-- Options as the list of numbers that is sent to a client. -/
def ScreenOptions.toNumbers (o : ScreenOptions) : List ℕ :=
  o.toList.flatMap fun (id, value) => [id.code, (value % 2 ^ 32).toNat]

namespace Server

variable (s : Server)

/-- Copies the global options of the configuration. -/
def processOptions : Server :=
  match s.config.getOptions "" with
  | none => s
  | some options =>
    let o := s.options.processAll options
    let s := s.setPending (options.toList.foldl Pending.process s.pending)
    let s := if s.options.relativeMoves && !o.relativeMoves then s.stopRelativeMoves else s
    { s with options := o }

/-- Sends a screen its options and the global ones. -/
def sendOptions (c : ClientID) : Server :=
  let numbers := fun name => ((s.config.getOptions name).map ScreenOptions.toNumbers).getD []
  (s.notice (.resetOptions c)).notice (.setOptions c (numbers (s.getName c) ++ numbers ""))

/-- Tells the primary screen which of its sides provoke a switch. -/
def reconfigure : Server := s.notice (.reconfigure s.getActivePrimarySides)

/-! ### File pastes -/

/-- Reports to a screen on a paste. -/
def sendStatus (c : ClientID) (request : String) (state : FilePasteState) (detail : String) :
    Server :=
  s.callPaste (.status c ⟨request, state, detail⟩)

/-- The files on the shared clipboard. -/
def getFileClip : Option FileClip :=
  match (s.clipboards .clipboard).clipboard.data .files with
  | none => none
  | some data => if data = [] then none else FileClip.unmarshall data

/-- Why a paste request is refused, or the screen that is asked for the files. -/
def pasteSource (requester : ClientID) (request : FilePasteRequest) : Except String ClientID :=
  if !s.registry.clientSet.contains requester then
    .error "this screen isn't connected yet"
  else if !isValidPasteRequest request.request || !isValidPasteAddress request.address then
    .error "the paste request is malformed"
  else if s.filePastes.contains request.request then
    .error "a paste with the same id is already in progress"
  else if !s.options.enableClipboard || s.getFileClip.all fun clip => clip.id != request.fileId then
    .error "the files are no longer on the clipboard"
  else
    match s.registry.clients[(s.clipboards .clipboard).owner]? with
    | none => .error "the screen that copied the files is not connected"
    | some source =>
      if source = requester then .error "the files were copied on this screen"
      else if !(s.registry.ident source).supportsFilePaste then
        .error "the screen that copied the files runs a version that can't send them"
      else .ok source

/-- A screen asks for the files on the clipboard. -/
def filePasteRequested (requester : ClientID) (request : FilePasteRequest) : Server :=
  let s := s.callPaste (.requested requester request.request)
  match s.pasteSource requester request with
  | .error reason => s.sendStatus requester request.request .failed reason
  | .ok source =>
    let paste : FilePaste := ⟨s.getName requester, s.getName source⟩
    { s with filePastes := s.filePastes.insert request.request paste }.callPaste
      (.sendFiles source request)

/-- A screen reports on a paste. -/
def filePasteStatus (sender : ClientID) (status : FilePasteStatus) : Server :=
  match s.filePastes[status.request]? with
  | none => s
  | some paste =>
    if paste.source ≠ s.getName sender then s
    else
      let s' :=
        if status.state.terminal then { s with filePastes := s.filePastes.erase status.request }
        else s
      match s'.registry.clients[paste.target]? with
      | none => s'
      | some c => s'.callPaste (.status c status)

/-- Ends one paste because the screen `name` is gone. -/
def endFilePaste (name : String) (paste : String × FilePaste) : Server :=
  if paste.2.source = name then
    let s' := { s with filePastes := s.filePastes.erase paste.1 }
    match s.registry.clients[paste.2.target]? with
    | none => s'
    | some c =>
      s'.sendStatus c paste.1 .failed "the screen that copied the files disconnected"
  else if paste.2.target = name then { s with filePastes := s.filePastes.erase paste.1 }
  else s

/-- Ends the pastes that the screen `name` takes part in. -/
def endFilePastes (name : String) : Server :=
  s.filePastes.toList.foldl (endFilePaste · name ·) s

/-! ### The registry -/

/-- Registers a screen; `none` if its name is taken. -/
def addClient (c : ClientID) : Option Server :=
  let name := s.getName c
  if s.registry.clients.contains name then none
  else
    let s := { s with
      registry := { s.registry with
        clientSet := s.registry.clientSet.insert c
        clients := s.registry.clients.insert name c } }
    let i := s.info c
    some (s.setProxy c { s.proxies c with jumpCursorPos := (i.mx, i.my) }).reconfigure

/-- Unregisters a screen, if it is connected. -/
def removeClient (c : ClientID) : Server :=
  if !s.registry.clientSet.contains c then s
  else
    let name := s.getName c
    { s with
      registry := { s.registry with
        clients := s.registry.clients.erase name
        clientSet := s.registry.clientSet.erase c } }.endFilePastes name

/-- Moves the cursor to the primary screen if it is on a screen that is gone. -/
def jumpToPrimary (env : Env) (c : ClientID) : Server :=
  let s := { s with
    mouse := { s.mouse with x := env.cursorCenter.1, y := env.cursorCenter.2 } }
  let s := if s.pending.switchScreen = some c then s.stopSwitch else s
  let s := s.setFocus { s.focus with active := primaryClient }
  let s :=
    if s.focus.activeSaver = none then
      s.enterClient env primaryClient s.mouse.x s.mouse.y false
    else s
  s.notice (.serverScreenSwitched (s.registry.ident primaryClient).name)

/-- Makes sure that the cursor is not on the screen `c`, which is gone. -/
def forceLeaveClient (env : Env) (c : ClientID) : Server :=
  let s := if s.focusClient = c then s.jumpToPrimary env c else s
  let s :=
    if s.focus.activeSaver = some c then s.setFocus { s.focus with activeSaver := none } else s
  s.reconfigure

/-- Tells a client to disconnect and forgets it. -/
def closeClient (env : Env) (c : ClientID) (msg : String) : Server :=
  let s := (s.notice (.close c msg)).removeClient c
  let s := { s with registry := { s.registry with oldClients := s.registry.oldClients.insert c } }
  s.forceLeaveClient env c

/-- The screens that `closeClients` drops: those whose name is not canonical in the
configuration, except the primary screen. -/
def droppedClients (cfg : Config) : List ClientID :=
  let dropped := s.registry.clients.toList.filter fun (name, _) => !cfg.isCanonicalName name
  ((Std.TreeSet.ofList (dropped.map Prod.snd)).erase primaryClient).toList

/-- Closes the clients that are not in a configuration. -/
def closeClients (env : Env) (cfg : Config) : Server :=
  (s.droppedClients cfg).foldl (fun s c => s.closeClient env c "CBYE") s

/-- Only the primary screen is left. -/
def onlyPrimary : Bool := s.registry.clients.size == 1 && s.registry.oldClients.isEmpty

/-- Unregisters a connected client that disconnected. -/
def removeActiveClient (env : Env) (c : ClientID) : Server :=
  if !s.registry.clientSet.contains c then s
  else
    let s := (s.removeClient c).forceLeaveClient env c
    if s.onlyPrimary then s.notice .serverDisconnected else s

/-- Forgets a client that was told to disconnect. -/
def removeOldClient (c : ClientID) : Server :=
  if !s.registry.oldClients.contains c then s
  else
    let s := { s with registry := { s.registry with oldClients := s.registry.oldClients.erase c } }
    if s.onlyPrimary then s.notice .serverDisconnected else s

/-- A client disconnected. -/
def handleClientDisconnected (env : Env) (c : ClientID) : Server :=
  (s.removeActiveClient env c).removeOldClient c

/-- Takes in a client that completed the handshake. -/
def adoptClient (env : Env) (c : ClientID) : Server :=
  let s := { s with registry := { s.registry with waiting := s.registry.waiting.erase c } }
  if !s.config.isScreen (s.registry.ident c).name then s.closeClient env c "EUNK"
  else
    match s.addClient c with
    | none => s.closeClient env c "EBSY"
    | some s =>
      let s := s.sendOptions c
      let s := if s.focus.activeSaver ≠ none then s.notice (.screensaver c true) else s
      s.notice (.serverConnected (s.getName c))

/-- Closes all clients. -/
def disconnect (env : Env) : Server :=
  if 1 < s.registry.clients.size ∨ !s.registry.oldClients.isEmpty then s.closeClients env {}
  else s.notice .serverDisconnected

/-- Adds the Scroll Lock rule if no rule locks the cursor to a screen. -/
def addScrollLockRule : Server :=
  if s.config.hasLockToScreenAction then s
  else
    { s with
      config := { s.config with inputFilterRules := s.config.inputFilterRules ++ [.scrollLock] }
      filterRules := s.filterRules ++ [.scrollLock] }

/-- Applies the configuration object, which has new content; `none` refuses it because the
primary screen is not in it. -/
def setConfig (env : Env) : Option Server :=
  if !s.config.isScreen (s.registry.ident primaryClient).name then none
  else
    let s := ((s.closeClients env s.config).processOptions.addScrollLockRule).reconfigure
    some (s.clientList.foldl sendOptions s)

/-- What `setConfig` does, one state after the other. -/
theorem setConfig_stages {s s' : Server} {env : Env} (h : s.setConfig env = some s') :
    ∃ s₁ s₂ s₃ : Server, s₁ = s.closeClients env s.config ∧ s₂ = s₁.processOptions ∧
      s₃ = s₂.addScrollLockRule ∧
      s' = s₃.reconfigure.clientList.foldl sendOptions s₃.reconfigure := by
  unfold setConfig at h
  split_ifs at h
  exact ⟨_, _, _, rfl, rfl, rfl, (Option.some.inj h).symm⟩

end Server

end InputLeap
