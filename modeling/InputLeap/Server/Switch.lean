import InputLeap.Server.Neighbor

/-!
# Switching screens

The functions of `Server` that move the cursor from one screen to another, stop or start waiting
for a switch, and pass clipboard content on.

## Main definitions

* `stopSwitch`, `startSwitchWait`, `armSwitchTwoTap`, ... : the pending switch.
* `onClipboardChanged` : new content of a clipboard.
* `switchScreen` : leaving the active screen and entering another.
* `isSwitchOkay` : whether a motion across an edge switches now, later or not at all.
* `onMouseMovePrimary`, `onMouseMoveSecondary`, `onScreensaver` : the events that switch screens.

## Main results

* `keeps_switchScreen`, `keeps_onMouseMovePrimary`, ... : switching leaves the configuration, the
  options, the registry and the pastes alone.
-/

namespace InputLeap

namespace Pending

/-- Forgets a first tap. -/
def stopSwitchTwoTap (p : Pending) : Pending :=
  { p with twoTapEngaged := false, twoTapArmed := false }

/-- Notes a first tap. -/
def startSwitchTwoTap (p : Pending) (env : Env) : Pending :=
  { p with twoTapEngaged := true, twoTapArmed := false, twoTapTimer := env.now }

/-- Stops the wait timer. -/
def stopSwitchWait (p : Pending) : Pending := { p with waitTimer := false }

/-- Starts the wait timer for a switch to a position. -/
def startSwitchWait (p : Pending) (x y : ℤ) : Pending :=
  { p with waitX := x, waitY := y, waitTimer := true }

/-- Forgets the pending switch. -/
def stopSwitch (p : Pending) : Pending :=
  if p.switchScreen = none then p
  else { p with switchScreen := none, switchDir := none }.stopSwitchTwoTap.stopSwitchWait

@[simp] theorem stopSwitch_switchScreen (p : Pending) : p.stopSwitch.switchScreen = none := by
  unfold stopSwitch
  split_ifs with h
  · exact h
  · rfl

/-- The time since the first tap. -/
def twoTapTime (p : Pending) (env : Env) : ℚ := env.now - p.twoTapTimer

/-- This is the second tap. -/
def shouldSwitchTwoTap (p : Pending) (env : Env) (o : SwitchOptions) : Bool :=
  p.twoTapArmed && p.twoTapTime env ≤ o.twoTapDelay

/-- Notes the direction and the screen of a motion across an edge. -/
def aim (p : Pending) (dir : Direction) (c : ClientID) : Pending :=
  if p.switchDir ≠ some dir ∨ p.switchScreen = none then
    { p with switchDir := some dir, switchScreen := some c }
  else p

end Pending

namespace Server

variable (s : Server)

/-- Changes the pending switch. -/
def setPending (p : Pending) : Server := { s with pending := p }

/-- Changes which screen is active or remembered. -/
def setFocus (f : Focus) : Server := { s with focus := f }

/-- Moves the cursor without a motion. -/
def warp (x y : ℤ) : Server :=
  { s with mouse := ⟨x, y, 0, 0, 0, 0⟩ }

/-- Forgets the pending switch. -/
def stopSwitch : Server := s.setPending s.pending.stopSwitch

/-- The cursor is locked to the active screen. -/
def isLockedToScreen (env : Env) : Bool := s.lockedToScreen || env.lockedToScreen

/-- New content of the clipboard `id` from `sender`, as of the enter `seqNum`.  The source also
asserts that the sender is the screen registered for the clipboard's owner. -/
def onClipboardChanged (env : Env) (sender : ClientID) (id : ClipboardID) (seqNum : ℕ) :
    Server :=
  let info := s.clipboards id
  if seqNum < info.seqNum then s
  else
    match s.getClipboard env sender id with
    | none => s
    | some clipboard =>
      let s := { s with
        clipboards := Function.update s.clipboards id { info with clipboard := clipboard } }
      let data := clipboard.marshall
      if s.options.maximumClipboardSize < data.length then s
      else if data = info.data then s
      else
        let s := { s with
          clipboards := Function.update s.clipboards id
            { s.clipboards id with data := data } }
        let s := s.clientList.foldl (fun s c => s.setClipboardDirty c id (c != sender)) s
        s.setClipboard s.focus.active id clipboard

/-- Passes on the primary screen's clipboards when it is left: those that it owns. -/
def sendPrimaryClipboards (env : Env) : Server :=
  ClipboardID.all.foldl
    (fun s id =>
      if (s.clipboards id).owner = s.getName primaryClient then
        s.onClipboardChanged env primaryClient id (s.clipboards id).seqNum
      else s) s

/-- Sends the clipboards to the screen that was entered. -/
def sendClipboards : Server :=
  ClipboardID.all.foldl
    (fun s id =>
      if s.options.maximumClipboardSize < (s.clipboards id).clipboard.marshall.length then s
      else s.setClipboard s.focus.active id (s.clipboards id).clipboard) s

/-- Makes `dst` the active screen, after the screen that was active is left. -/
def enterScreen (env : Env) (dst : ClientID) (x y : ℤ) (forScreensaver : Bool) : Server :=
  let s := s.setFocus { s.focus with active := dst }
  let s := { s with seqNum := (s.seqNum + 1) % 2 ^ 32 }
  let s := s.enterClient env dst x y forScreensaver
  let s := if s.options.enableClipboard then s.sendClipboards else s
  s.notice (.serverScreenSwitched (s.registry.ident dst).name)

/-- Leaves the active screen and enters `dst`, or moves the cursor on it if it is active. -/
def switchScreen (env : Env) (dst : ClientID) (x y : ℤ) (forScreensaver : Bool) : Server :=
  let s := s.stopSwitch.warp x y
  let src := s.focus.active
  if src = dst then s.notice (.mouseMove dst x y)
  else
    let s := s.leaveClient env src
    if !canLeave env src then s
    else
      let s :=
        if src = primaryClient ∧ s.options.enableClipboard then s.sendPrimaryClipboards env
        else s
      s.enterScreen env dst x y forScreensaver

/-- Switches to a screen at the position where the cursor was last. -/
def jumpToScreen (env : Env) (newScreen : ClientID) : Server :=
  let a := s.focus.active
  let s := s.setProxy a { s.proxies a with jumpCursorPos := (s.mouse.x, s.mouse.y) }
  let p := (s.proxies newScreen).jumpCursorPos
  s.switchScreen env newScreen p.1 p.2 false

/-- Puts the cursor in the middle of the active screen after relative motions. -/
def stopRelativeMoves : Server :=
  let a := s.focus.active
  if s.options.relativeMoves ∧ a ≠ primaryClient then
    let i := s.info a
    let x := i.x + i.w / 2
    let y := i.y + i.h / 2
    (s.warp x y).notice (.mouseMove a x y)
  else s

/-- The options of the active screen that lock its corners, or else the global ones. -/
def cornerOptions : Option ScreenOptions :=
  let options := s.config.getOptions (s.getName s.focus.active)
  if options.any fun o => o.contains .screenSwitchCorners then options
  else s.config.getOptions ""

/-- The position is in a locked corner of the active screen. -/
def inLockedCorner (x y : ℤ) : Bool :=
  match s.cornerOptions with
  | none => false
  | some o =>
    match o[OptionID.screenSwitchCorners]? with
    | none => false
    | some corners =>
      let size := (o[OptionID.screenSwitchCornerSize]?).getD 0
      getCorner (s.info s.focus.active) x y size &&& (corners % 2 ^ 32).toNat != 0

/-- A modifier that switching requires is not down. -/
def needsModifiers (env : Env) : Bool :=
  (s.options.needsShift && env.toggleMask &&& keyModifierShift != keyModifierShift) ||
    (s.options.needsControl && env.toggleMask &&& keyModifierControl != keyModifierControl) ||
    (s.options.needsAlt && env.toggleMask &&& keyModifierAlt != keyModifierAlt)

/-- A motion in the direction `dir` is the second tap, or taps do not matter. -/
def allowSwitch (env : Env) (dir : Direction) : Bool :=
  0 < s.options.twoTapDelay && s.pending.switchDir == some dir && s.pending.twoTapEngaged &&
    s.pending.shouldSwitchTwoTap env s.options

/-- The pending switch after a motion across an edge to the position `(x, y)` on `newScreen`. -/
def prepareSwitch (env : Env) (newScreen : ClientID) (dir : Direction) (x y : ℤ) : Pending :=
  let isNewDirection := s.pending.switchDir != some dir
  let allow := s.allowSwitch env dir
  let p := s.pending.aim dir newScreen
  let p := if 0 < s.options.twoTapDelay ∧ !allow then p.startSwitchTwoTap env else p
  if !allow ∧ 0 < s.options.waitDelay ∧ (isNewDirection ∨ !p.waitTimer) then p.startSwitchWait x y
  else p

/-- Whether a motion across an edge to the position `(x, y)` on `newScreen` switches now;
`(xActive, yActive)` is the position on the active screen. -/
def isSwitchOkay (env : Env) (newScreen : Option ClientID) (dir : Direction)
    (x y xActive yActive : ℤ) : Server × Bool :=
  match newScreen with
  | none => (s.stopSwitch, false)
  | some newScreen =>
    let allow := s.allowSwitch env dir
    let prevent := !allow && (0 < s.options.twoTapDelay || 0 < s.options.waitDelay)
    let s := s.setPending (s.prepareSwitch env newScreen dir x y)
    let corner := s.inLockedCorner xActive yActive
    let s := if corner then s.stopSwitch else s
    let prevent := prevent || corner
    let locked := !prevent && s.isLockedToScreen env
    let s := if locked then s.stopSwitch else s
    let prevent := prevent || locked
    let modifiers := !prevent && s.needsModifiers env
    let s := if modifiers then s.stopSwitch else s
    (s, !(prevent || modifiers))

/-- Where there is a neighbour, the pending switch is prepared and perhaps given up. -/
theorem isSwitchOkay_induction {P : Server → Prop} {s : Server} {env : Env} {c : ClientID}
    {dir : Direction} {x y xActive yActive : ℤ}
    (hprepare : P (s.setPending (s.prepareSwitch env c dir x y)))
    (hstop : ∀ s', P s' → P s'.stopSwitch) :
    P (s.isSwitchOkay env (some c) dir x y xActive yActive).1 := by
  have hor (b : Bool) (s' : Server) (h : P s') : P (if b then s'.stopSwitch else s') := by
    cases b
    · exact h
    · exact hstop s' h
  simp only [isSwitchOkay]
  exact hor _ _ (hor _ _ (hor _ _ hprepare))

/-- The cursor moved inwards far enough from the edge of the pending direction. -/
def leftTapZone (dir : Option Direction) : Bool :=
  match dir with
  | some .left => 0 < s.mouse.xDelta && 0 < s.mouse.xDelta2
  | some .right => s.mouse.xDelta < 0 && s.mouse.xDelta2 < 0
  | some .top => 0 < s.mouse.yDelta && 0 < s.mouse.yDelta2
  | some .bottom => s.mouse.yDelta < 0 && s.mouse.yDelta2 < 0
  | none => s.pending.twoTapArmed

/-- Arms the double tap when the cursor left the tap zone, or gives it up after too long. -/
def armSwitchTwoTap (env : Env) (x y : ℤ) : Server :=
  if !s.pending.twoTapEngaged then s
  else if s.options.twoTapDelay < s.pending.twoTapTime env then
    s.setPending s.pending.stopSwitchTwoTap
  else if s.pending.twoTapArmed then s
  else
    let i := s.info s.focus.active
    let tapZone := max env.jumpZoneSize 3
    if i.x + tapZone ≤ x ∧ x < i.x + i.w - tapZone ∧ i.y + tapZone ≤ y ∧
        y < i.y + i.h - tapZone then
      s.setPending { s.pending with twoTapArmed := s.leftTapZone s.pending.switchDir }
    else s

/-- The cursor is not at an edge. -/
def noSwitch (env : Env) (x y : ℤ) : Server :=
  let s := s.armSwitchTwoTap env x y
  s.setPending s.pending.stopSwitchWait

/-- Notes what `mapToNeighbor` found. -/
def noteMapped (r : Option (ClientID × ℤ × ℤ)) : Server :=
  match r with
  | none => s
  | some m => { s with log := { s.log with mapped := m :: s.log.mapped } }

/-- Notes a motion of the cursor to a position. -/
def moveMouse (x y dx dy : ℤ) : Server :=
  { s with mouse := ⟨x, y, dx, dy, s.mouse.xDelta, s.mouse.yDelta⟩ }

/-- The coordinate on the border of the screen, if it is in the jump zone there. -/
def clampZone (v first size zone : ℤ) : ℤ :=
  if v < first + zone then first else if v ≥ first + size - zone then first + size - 1 else v

/-- The edges that a position of the cursor on the primary screen is at, with the position to
look for a neighbour from. -/
def touchedEdges (i : ScreenInfo) (zone x y : ℤ) : List (Direction × ℤ × ℤ) :=
  (if x < i.x + zone then [(.left, x - zone, y)]
    else if x ≥ i.x + i.w - zone then [(.right, x + zone, y)] else []) ++
  (if y < i.y + zone then [(.top, x, y - zone)]
    else if y ≥ i.y + i.h - zone then [(.bottom, x, y + zone)] else [])

/-- Asks what is across an edge of the active screen, looking from the position `p`, and whether
to switch there: the screen and position to switch to now, if any. -/
def tryEdge (env : Env) (dir : Direction) (p : ℤ × ℤ) (xActive yActive : ℤ) :
    Option (Server × Option (ClientID × ℤ × ℤ)) :=
  (s.mapToNeighbor env s.focus.active dir p).map fun r =>
    let q := (r.map Prod.snd).getD p
    let (s', okay) :=
      (s.noteMapped r).isSwitchOkay env (r.map Prod.fst) dir q.1 q.2 xActive yActive
    (s', if okay then r else none)

/-- Switches across an edge of the primary screen, unless files are dragged there and the other
screen does not know which yet. -/
def switchAcross (env : Env) (newScreen : ClientID) (x y : ℤ) : Server :=
  if s.drag.enableDragDrop ∧ env.draggingStarted ∧ s.focus.active ≠ newScreen ∧
      s.drag.waitDragInfoThread then
    { s with drag := { s.drag with sendDragInfoThread := true } }
  else
    let s' := s.switchScreen env newScreen x y false
    { s' with drag := { s'.drag with waitDragInfoThread := true } }

/-- Tries to switch across the edges in turn. -/
def tryEdges (env : Env) (xc yc : ℤ) : Server → List (Direction × ℤ × ℤ) → Option Server
  | s, [] => some s
  | s, (dir, p) :: rest =>
    match s.tryEdge env dir p xc yc with
    | none => none
    | some (s', some (newScreen, x, y)) => some (s'.switchAcross env newScreen x y)
    | some (s', none) => tryEdges env xc yc s' rest

/-- The mouse moved on the primary screen. -/
def onMouseMovePrimary (env : Env) (x y : ℤ) : Option Server :=
  if s.focus.active ≠ primaryClient then some s
  else
    let i := s.info s.focus.active
    let zone := getJumpZoneSize env s.focus.active
    let s' := s.moveMouse x y (x - s.mouse.x) (y - s.mouse.y)
    match touchedEdges i zone x y with
    | [] => some (s'.noSwitch env x y)
    | edges => tryEdges env (clampZone x i.x i.w zone) (clampZone y i.y i.h zone) s' edges

/-- The side of the active screen that a position is beyond. -/
def exitSide (i : ScreenInfo) (x y : ℤ) : Option Direction :=
  if x < i.x then some .left
  else if x > i.x + i.w - 1 then some .right
  else if y < i.y then some .top
  else if y > i.y + i.h - 1 then some .bottom
  else none

/-- The coordinate on the screen. -/
def clampTo (v first size : ℤ) : ℤ :=
  if v < first then first else if v > first + size - 1 then first + size - 1 else v

/-- The cursor on a secondary screen is away from the border of the pending switch. -/
def clearWait (env : Env) (i : ScreenInfo) (x y : ℤ) : Bool :=
  match s.pending.switchDir with
  | some .left => x ≥ i.x + env.jumpZoneSize
  | some .right => x ≤ i.x + i.w - 1 - env.jumpZoneSize
  | some .top => y ≥ i.y + env.jumpZoneSize
  | some .bottom => y ≤ i.y + i.h - 1 + env.jumpZoneSize
  | none => false

/-- Stays on the active screen: the cursor stops at its border. -/
def stayOnScreen (xOld yOld dx dy : ℤ) : Server :=
  let a := s.focus.active
  let i := s.info a
  let x := clampTo (xOld + dx) i.x i.w
  let y := clampTo (yOld + dy) i.y i.h
  let s := { s with mouse := { s.mouse with x := x, y := y } }
  if x ≠ xOld ∨ y ≠ yOld then s.notice (.mouseMove a x y) else s

/-- Stops waiting for a switch if the cursor left the border of the pending direction. -/
def leaveBorder (env : Env) (i : ScreenInfo) (x y : ℤ) : Server :=
  if s.pending.switchScreen ≠ none ∧ s.clearWait env i x y then s.noSwitch env x y else s

/-- The mouse moved on a secondary screen. -/
def onMouseMoveSecondary (env : Env) (dx dy : ℤ) : Option Server :=
  if s.focus.active = primaryClient then some s
  else if s.options.relativeMoves ∧ s.lockedToScreen then
    some (s.notice (.mouseRelativeMove s.focus.active dx dy))
  else
    let i := s.info s.focus.active
    let x := s.mouse.x + dx
    let y := s.mouse.y + dy
    let s' := s.moveMouse x y dx dy
    match exitSide i x y with
    | none => some ((s'.leaveBorder env i x y).stayOnScreen s.mouse.x s.mouse.y dx dy)
    | some dir =>
      match s'.tryEdge env dir (x, y) (clampTo x i.x i.w) (clampTo y i.y i.h) with
      | none => none
      | some (s', some (newScreen, x, y)) => some (s'.switchScreen env newScreen x y false)
      | some (s', none) => some (s'.stayOnScreen s.mouse.x s.mouse.y dx dy)

/-- The coordinate inside the jump zone of the screen. -/
def clampSaver (v first size zone : ℤ) : ℤ :=
  if v < first + zone then first + zone
  else if v ≥ first + size - zone then first + size - zone - 1 else v

/-- Remembers the active screen and position and goes to the primary screen. -/
def enterSaver (env : Env) : Server :=
  let a := s.focus.active
  let s' := s.setFocus ⟨a, some a, s.mouse.x, s.mouse.y⟩
  if a ≠ primaryClient then s'.switchScreen env primaryClient 0 0 true else s'

/-- Goes back to the remembered screen, at a position that is still on it. -/
def leaveSaver (env : Env) : Server :=
  match s.focus.activeSaver with
  | none => s
  | some screen =>
    if screen = primaryClient then s
    else
      let i := s.info screen
      let zone := getJumpZoneSize env screen
      let x := clampSaver s.focus.xSaver i.x i.w zone
      let y := clampSaver s.focus.ySaver i.y i.h zone
      (s.setFocus { s.focus with xSaver := x, ySaver := y }).switchScreen env screen x y false

/-- The screen saver started or stopped. -/
def onScreensaver (env : Env) (activated : Bool) : Server :=
  let s' :=
    if activated then s.enterSaver env
    else
      let s' := s.leaveSaver env
      s'.setFocus { s'.focus with activeSaver := none }
  s'.clientList.foldl (fun s c => s.notice (.screensaver c activated)) s'

/-- The wait timer fired. -/
def handleSwitchWaitEvent (env : Env) : Option Server :=
  if s.isLockedToScreen env then some s.stopSwitch
  else s.pending.switchScreen.map fun c =>
    s.switchScreen env c s.pending.waitX s.pending.waitY false

/-- The hotkey that switches to a screen. -/
def handleSwitchToScreenEvent (env : Env) (screen : String) : Server :=
  match s.registry.clients[screen]? with
  | none => s
  | some c => s.jumpToScreen env c

/-- The hotkey that switches to the next screen. -/
def handleToggleScreenEvent (env : Env) : Server :=
  let current := s.getName s.focus.active
  if s.registry.clients.contains current then
    let screens := s.registry.clients.toList
    match (screens.find? fun e => current < e.1).or screens.head? with
    | none => s
    | some (_, c) => s.jumpToScreen env c
  else s

/-- The hotkey that switches in a direction. -/
def handleSwitchInDirectionEvent (env : Env) (dir : Direction) : Option Server :=
  (s.getNeighbor env.fuel s.focus.active dir (s.mouse.x, s.mouse.y)).map fun r =>
    match r with
    | none => s
    | some (c, _) => s.jumpToScreen env c

/-- The hotkey that locks the cursor to the screen. -/
def handleLockCursorToScreenEvent (mode : InputFilter.Mode) : Server :=
  let newState :=
    match mode with
    | .off => false
    | .on => true
    | .toggle => !s.lockedToScreen
  if newState = s.lockedToScreen then s
  else
    let s := { s with lockedToScreen := newState }
    let s := s.notice (.reconfigure s.getActivePrimarySides)
    if s.lockedToScreen then s else s.stopRelativeMoves

/-- The shape of a screen or the position of its cursor changed. -/
def handleShapeChanged (env : Env) (c : ClientID) : Option Server :=
  if !s.registry.clientSet.contains c then some s
  else
    let i := s.info c
    let s := s.setProxy c { s.proxies c with jumpCursorPos := (i.mx, i.my) }
    let s := if c = s.focus.active then { s with mouse := { s.mouse with x := i.mx, y := i.my } }
      else s
    if c = primaryClient then
      if c = s.focus.active then s.onMouseMovePrimary env s.mouse.x s.mouse.y
      else s.onMouseMoveSecondary env 0 0
    else some s

/-- A screen grabbed a clipboard. -/
def handleClipboardGrabbed (grabber : ClientID) (id : ClipboardID) (seqNum : ℕ) : Server :=
  if !s.options.enableClipboard ∨ s.options.maximumClipboardSize = 0 then s
  else if !s.registry.clientSet.contains grabber then s
  else if grabber ≠ primaryClient ∧ seqNum < (s.clipboards id).seqNum then s
  else
    let clipboard := Clipboard.clear 0
    let s := { s with
      clipboards := Function.update s.clipboards id
        ⟨clipboard, clipboard.marshall, s.getName grabber, seqNum⟩ }
    s.clientList.foldl
      (fun s c => if c = grabber then s.setClipboardDirty c id false else s.grabClipboard c id) s

/-- A screen has new content of a clipboard. -/
def handleClipboardChanged (env : Env) (c : ClientID) (id : ClipboardID) (seqNum : ℕ) : Server :=
  if !s.registry.clientSet.contains c then s else s.onClipboardChanged env c id seqNum

/-! ### Frames -/

theorem keeps_setPending (p : Pending) : Keeps s (s.setPending p) :=
  ⟨rfl, rfl, rfl, rfl, rfl, rfl, rfl⟩

theorem keeps_setFocus (f : Focus) : Keeps s (s.setFocus f) :=
  ⟨rfl, rfl, rfl, rfl, rfl, rfl, rfl⟩

theorem keeps_notice (k : Notice) : Keeps s (s.notice k) := ⟨rfl, rfl, rfl, rfl, rfl, rfl, rfl⟩

theorem keeps_moveMouse (x y dx dy : ℤ) : Keeps s (s.moveMouse x y dx dy) :=
  ⟨rfl, rfl, rfl, rfl, rfl, rfl, rfl⟩

theorem keeps_noteMapped (r : Option (ClientID × ℤ × ℤ)) : Keeps s (s.noteMapped r) := by
  cases r
  · exact .refl s
  · exact ⟨rfl, rfl, rfl, rfl, rfl, rfl, rfl⟩

theorem keeps_onClipboardChanged (env : Env) (sender : ClientID) (id : ClipboardID)
    (seqNum : ℕ) : Keeps s (s.onClipboardChanged env sender id seqNum) := by
  simp only [onClipboardChanged]
  split_ifs
  · exact .refl s
  · split
    · exact .refl s
    · split_ifs
      · exact ⟨rfl, rfl, rfl, rfl, rfl, rfl, rfl⟩
      · exact ⟨rfl, rfl, rfl, rfl, rfl, rfl, rfl⟩
      · refine Keeps.trans ?_ (keeps_setClipboard _ _ _ _)
        refine Keeps.trans ?_ (Keeps.foldl (fun s c => keeps_setClipboardDirty s c _ _) _ _)
        exact ⟨rfl, rfl, rfl, rfl, rfl, rfl, rfl⟩

theorem keeps_sendPrimaryClipboards (env : Env) : Keeps s (s.sendPrimaryClipboards env) := by
  refine Keeps.foldl (fun s id => ?_) _ s
  split_ifs
  · exact keeps_onClipboardChanged s env _ _ _
  · exact .refl s

theorem keeps_sendClipboards : Keeps s s.sendClipboards := by
  refine Keeps.foldl (fun s id => ?_) _ s
  split_ifs
  · exact .refl s
  · exact keeps_setClipboard s _ _ _

theorem keeps_enterScreen (env : Env) (dst : ClientID) (x y : ℤ) (forScreensaver : Bool) :
    Keeps s (s.enterScreen env dst x y forScreensaver) := by
  simp only [enterScreen]
  refine Keeps.trans ?_ (keeps_notice _ _)
  split_ifs
  · refine Keeps.trans ?_ (keeps_sendClipboards _)
    exact ⟨rfl, rfl, rfl, rfl, rfl, rfl, rfl⟩
  · exact ⟨rfl, rfl, rfl, rfl, rfl, rfl, rfl⟩

theorem keeps_switchScreen (env : Env) (dst : ClientID) (x y : ℤ) (forScreensaver : Bool) :
    Keeps s (s.switchScreen env dst x y forScreensaver) := by
  simp only [switchScreen]
  split_ifs
  · exact ⟨rfl, rfl, rfl, rfl, rfl, rfl, rfl⟩
  · exact ⟨rfl, rfl, rfl, rfl, rfl, rfl, rfl⟩
  · refine Keeps.trans ?_ (keeps_enterScreen _ env dst x y forScreensaver)
    refine Keeps.trans ?_ (keeps_sendPrimaryClipboards _ env)
    exact ⟨rfl, rfl, rfl, rfl, rfl, rfl, rfl⟩
  · refine Keeps.trans ?_ (keeps_enterScreen _ env dst x y forScreensaver)
    exact ⟨rfl, rfl, rfl, rfl, rfl, rfl, rfl⟩

theorem keeps_jumpToScreen (env : Env) (c : ClientID) : Keeps s (s.jumpToScreen env c) := by
  simp only [jumpToScreen]
  refine Keeps.trans ?_ (keeps_switchScreen _ env _ _ _ _)
  exact ⟨rfl, rfl, rfl, rfl, rfl, rfl, rfl⟩

theorem keeps_isSwitchOkay (env : Env) (newScreen : Option ClientID) (dir : Direction)
    (x y xActive yActive : ℤ) :
    Keeps s (s.isSwitchOkay env newScreen dir x y xActive yActive).1 := by
  cases newScreen with
  | none => exact keeps_setPending s _
  | some c =>
    refine isSwitchOkay_induction (keeps_setPending s _) fun s' h => ?_
    exact h.trans (keeps_setPending s' _)

theorem keeps_noSwitch (env : Env) (x y : ℤ) : Keeps s (s.noSwitch env x y) := by
  refine Keeps.trans ?_ (keeps_setPending _ _)
  simp only [armSwitchTwoTap]
  split_ifs
  all_goals first | exact .refl s | exact keeps_setPending s _

theorem keeps_leaveBorder (env : Env) (i : ScreenInfo) (x y : ℤ) :
    Keeps s (s.leaveBorder env i x y) := by
  unfold leaveBorder
  split_ifs
  · exact keeps_noSwitch s env x y
  · exact .refl s

theorem keeps_stayOnScreen (xOld yOld dx dy : ℤ) :
    Keeps s (s.stayOnScreen xOld yOld dx dy) := by
  simp only [stayOnScreen]
  split_ifs <;> exact ⟨rfl, rfl, rfl, rfl, rfl, rfl, rfl⟩

theorem keeps_switchAcross (env : Env) (c : ClientID) (x y : ℤ) :
    Keeps s (s.switchAcross env c x y) := by
  simp only [switchAcross]
  split_ifs
  · exact ⟨rfl, rfl, rfl, rfl, rfl, rfl, rfl⟩
  · exact (keeps_switchScreen s env c x y false).trans ⟨rfl, rfl, rfl, rfl, rfl, rfl, rfl⟩

variable {s} {s' : Server}

theorem keeps_tryEdge {env : Env} {dir : Direction} {p : ℤ × ℤ} {xActive yActive : ℤ}
    {t : Option (ClientID × ℤ × ℤ)} (h : s.tryEdge env dir p xActive yActive = some (s', t)) :
    Keeps s s' := by
  obtain ⟨r, -, hr⟩ := Option.map_eq_some_iff.1 h
  obtain ⟨rfl, -⟩ := Prod.mk.inj hr
  exact (keeps_noteMapped s r).trans (keeps_isSwitchOkay _ env _ _ _ _ _ _)

theorem keeps_tryEdges {env : Env} {xc yc : ℤ} {edges : List (Direction × ℤ × ℤ)}
    (h : tryEdges env xc yc s edges = some s') : Keeps s s' := by
  induction edges generalizing s with
  | nil =>
    cases h
    exact .refl _
  | cons e rest ih =>
    simp only [tryEdges] at h
    split at h
    · cases h
    · rename_i s₁ c x y htry
      cases h
      exact (keeps_tryEdge htry).trans (keeps_switchAcross _ env c x y)
    · rename_i s₁ htry
      exact (keeps_tryEdge htry).trans (ih h)

theorem keeps_onMouseMovePrimary {env : Env} {x y : ℤ}
    (h : s.onMouseMovePrimary env x y = some s') : Keeps s s' := by
  simp only [onMouseMovePrimary] at h
  split_ifs at h with hactive
  · cases h
    exact .refl s
  · split at h
    · cases h
      exact (keeps_moveMouse s x y _ _).trans (keeps_noSwitch _ env x y)
    · exact (keeps_moveMouse s x y _ _).trans (keeps_tryEdges h)

theorem keeps_onMouseMoveSecondary {env : Env} {dx dy : ℤ}
    (h : s.onMouseMoveSecondary env dx dy = some s') : Keeps s s' := by
  simp only [onMouseMoveSecondary] at h
  split_ifs at h with hactive hrelative
  · cases h
    exact .refl s
  · cases h
    exact keeps_notice s _
  · have hmove := keeps_moveMouse s (s.mouse.x + dx) (s.mouse.y + dy) dx dy
    split at h
    · cases h
      exact (hmove.trans (keeps_leaveBorder _ env _ _ _)).trans (keeps_stayOnScreen _ _ _ _ _)
    · split at h
      · cases h
      · rename_i s₁ c x y htry
        cases h
        exact (hmove.trans (keeps_tryEdge htry)).trans (keeps_switchScreen _ env c x y false)
      · rename_i s₁ htry
        cases h
        exact (hmove.trans (keeps_tryEdge htry)).trans (keeps_stayOnScreen _ _ _ _ _)

theorem keeps_enterSaver (env : Env) : Keeps s (s.enterSaver env) := by
  simp only [enterSaver]
  split_ifs
  · exact (keeps_setFocus s _).trans (keeps_switchScreen _ env _ _ _ _)
  · exact keeps_setFocus s _

theorem keeps_leaveSaver (env : Env) : Keeps s (s.leaveSaver env) := by
  unfold leaveSaver
  split
  · exact .refl s
  · split_ifs
    · exact .refl s
    · exact (keeps_setFocus s _).trans (keeps_switchScreen _ env _ _ _ _)

theorem keeps_onScreensaver (env : Env) (activated : Bool) :
    Keeps s (s.onScreensaver env activated) := by
  simp only [onScreensaver]
  refine Keeps.trans ?_ (Keeps.foldl (fun s c => keeps_notice s _) _ _)
  split_ifs
  · exact keeps_enterSaver env
  · exact (keeps_leaveSaver env).trans (keeps_setFocus _ _)

theorem keeps_handleSwitchToScreenEvent (env : Env) (screen : String) :
    Keeps s (s.handleSwitchToScreenEvent env screen) := by
  unfold handleSwitchToScreenEvent
  split
  · exact .refl s
  · exact keeps_jumpToScreen s env _

theorem keeps_handleToggleScreenEvent (env : Env) : Keeps s (s.handleToggleScreenEvent env) := by
  simp only [handleToggleScreenEvent]
  split_ifs
  · split
    · exact .refl s
    · exact keeps_jumpToScreen s env _
  · exact .refl s

theorem keeps_handleSwitchInDirectionEvent {env : Env} {dir : Direction}
    (h : s.handleSwitchInDirectionEvent env dir = some s') : Keeps s s' := by
  obtain ⟨r, -, rfl⟩ := Option.map_eq_some_iff.1 h
  cases r with
  | none => exact .refl s
  | some m => exact keeps_jumpToScreen s env m.1

theorem keeps_handleSwitchWaitEvent {env : Env} (h : s.handleSwitchWaitEvent env = some s') :
    Keeps s s' := by
  simp only [handleSwitchWaitEvent] at h
  split_ifs at h
  · cases h
    exact keeps_setPending s _
  · obtain ⟨c, -, rfl⟩ := Option.map_eq_some_iff.1 h
    exact keeps_switchScreen s env c _ _ false

theorem keeps_handleShapeChanged {env : Env} {c : ClientID}
    (h : s.handleShapeChanged env c = some s') : Keeps s s' := by
  simp only [handleShapeChanged] at h
  have hset (m : Mouse) (p : Proxy) : Keeps s { s.setProxy c p with mouse := m } :=
    ⟨rfl, rfl, rfl, rfl, rfl, rfl, rfl⟩
  have hjump := hset s.mouse { s.proxies c with jumpCursorPos := ((s.info c).mx, (s.info c).my) }
  split_ifs at h
  · cases h
    exact .refl s
  · exact (hset _ _).trans (keeps_onMouseMovePrimary h)
  · exact hjump.trans (keeps_onMouseMoveSecondary h)
  · cases h
    exact hset _ _
  · cases h
    exact hjump

theorem keeps_handleClipboardGrabbed (s : Server) (grabber : ClientID) (id : ClipboardID)
    (seqNum : ℕ) : Keeps s (s.handleClipboardGrabbed grabber id seqNum) := by
  simp only [handleClipboardGrabbed]
  have hclipboards (info : ClipboardID → ClipboardInfo) : Keeps s { s with clipboards := info } :=
    ⟨rfl, rfl, rfl, rfl, rfl, rfl, rfl⟩
  split_ifs
  · exact .refl s
  · exact .refl s
  · exact .refl s
  · refine (hclipboards _).trans (Keeps.foldl (fun s c => ?_) _ _)
    split_ifs
    · exact keeps_setClipboardDirty s c _ _
    · exact keeps_grabClipboard s c _

theorem keeps_handleClipboardChanged (s : Server) (env : Env) (c : ClientID) (id : ClipboardID)
    (seqNum : ℕ) : Keeps s (s.handleClipboardChanged env c id seqNum) := by
  simp only [handleClipboardChanged]
  split_ifs
  · exact .refl s
  · exact keeps_onClipboardChanged s env c id seqNum

theorem keeps_stopRelativeMoves (s : Server) : Keeps s s.stopRelativeMoves := by
  simp only [stopRelativeMoves]
  split_ifs
  · exact ⟨rfl, rfl, rfl, rfl, rfl, rfl, rfl⟩
  · exact .refl s

end Server

end InputLeap
