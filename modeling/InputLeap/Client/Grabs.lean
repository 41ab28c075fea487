import InputLeap.Clipboard.Basic
import InputLeap.LTS.Basic
import Mathlib.Logic.Function.Basic
import Mathlib.Tactic.SplitIfs

/-!
# Grabs of clipboards on the client

When a clipboard is grabbed on the client, the client tells the server and sends the data: at once
if its screen is not active, otherwise when it is left.  Whether the screen is active is not reset
when the connection ends.

## Main definitions

* `Client` : the members that concern the connection and the clipboards, what was sent to the
  server, and notes about the grabs.
* `Client.sendClipboard`, `Client.leave`, `Client.handleClipboardGrabbed` : the handlers.
* `Client.lts` : connections, disconnections, switches and grabs in any order.
* `Client.SentAtOnce`, `Client.SentAtLeave` : what becomes of a grab.
* `Client.Due` : the client takes the content for a new one.

## Main results

* `Client.sentAtLeave_iff_due` : what a leave sends.
* `Client.sent_iff_of_reachable` : a grab while the screen is not active on the connection is
  followed by its data exactly if the last enter, on whichever connection, was followed by a
  leave; the data of a grab on the active screen is sent at the leave exactly if the connection
  is still that of the grab.
-/

namespace InputLeap

/-- How far the connection of a client is. -/
inductive ConnectionPhase
  | disconnected
  | connecting
  /-- The client waits for the hello of the server. -/
  | connected
  /-- `m_server` exists and waits for the options. -/
  | handshake
  | ready
  deriving DecidableEq

/-- What the client tells the server about clipboards. -/
inductive ClientOutput
  | grabClipboard (id : ClipboardID)
  | clipboardChanged (id : ClipboardID) (data : Bytes)
  deriving DecidableEq

/-- The client.  The last three members are not kept by the program. -/
structure Client where
  phase : ConnectionPhase := .disconnected
  suspended : Bool := false
  connectOnResume : Bool := false
  active : Bool := false
  ownClipboard : ClipboardID → Bool := fun _ => false
  sentClipboard : ClipboardID → Bool := fun _ => false
  timeClipboard : ClipboardID → ℕ := fun _ => 0
  dataClipboard : ClipboardID → Bytes := fun _ => []
  enableClipboard : Bool := true
  maximumClipboardSize : ℕ := 2 ^ 31 - 1
  /-- What was sent, newest first. -/
  out : List ClientOutput := []
  /-- The server entered the screen on this connection and did not leave it since. -/
  entered : Bool := false
  /-- The clipboard was grabbed while the screen was active, and neither the server nor a grab
  replaced it since, nor was the screen left. -/
  pending : ClipboardID → Bool := fun _ => false
  /-- The grab was made on this connection. -/
  lasting : ClipboardID → Bool := fun _ => false

/-- The contents of the clipboards of the screen, if they can be read. -/
abbrev ScreenClipboards := ClipboardID → Option Clipboard

namespace Client

variable (c : Client)

/-- `isConnected`: the proxy of the server exists. -/
def isConnected : Bool := c.phase = .handshake ∨ c.phase = .ready

/-! ### The connection -/

def connect : Client :=
  if c.phase ≠ .disconnected then c
  else if c.suspended then { c with connectOnResume := true }
  else { c with phase := .connecting }

def disconnect : Client := { c with connectOnResume := false, phase := .disconnected }

/-- The state of the clipboards is reset. -/
def handleConnected : Client :=
  { c with
    phase := .connected
    ownClipboard := fun _ => false
    sentClipboard := fun _ => false
    timeClipboard := fun _ => 0
    entered := false
    lasting := fun _ => false }

def handleSuspend : Client :=
  { ({ c with suspended := true } : Client).disconnect with connectOnResume := c.isConnected }

def handleResume : Client :=
  let c := { c with suspended := false }
  if c.connectOnResume then ({ c with connectOnResume := false } : Client).connect else c

/-- The loop over the options. -/
def readOptions : List ℕ → Client → Client
  | [], c => c
  | id :: rest, c =>
    if id = OptionID.clipboardSharing.code then
      match rest with
      | [] => c
      | value :: _ => { c with enableClipboard := value != 0 }
    else if id = OptionID.clipboardSharingSize.code then
      match rest with
      | [] => c
      | value :: rest => readOptions rest { c with maximumClipboardSize := value }
    else readOptions rest c

def setOptions (options : List ℕ) : Client :=
  let c := readOptions options c
  if c.enableClipboard ∧ c.maximumClipboardSize = 0 then { c with enableClipboard := false } else c

/-! ### Clipboards -/

/-- What `getClipboard` of the screen makes of a new clipboard. -/
def getClipboard (screen : ScreenClipboards) (id : ClipboardID) : Clipboard :=
  (screen id).getD (Clipboard.clear 0)

def sendClipboard (screen : ScreenClipboards) (id : ClipboardID) : Client :=
  let clipboard := getClipboard screen id
  if c.timeClipboard id = 0 ∨ clipboard.timeOwned ≠ c.timeClipboard id then
    let c := { c with
      timeClipboard := Function.update c.timeClipboard id clipboard.timeOwned }
    let data := clipboard.marshall
    if c.maximumClipboardSize ≤ data.length then c
    else if !c.sentClipboard id || data != c.dataClipboard id then
      { c with
        sentClipboard := Function.update c.sentClipboard id true
        dataClipboard := Function.update c.dataClipboard id data
        out := .clipboardChanged id data :: c.out }
    else c
  else c

def enter : Client := { c with active := true, entered := true }

/-- Sends the clipboards that the client owns. -/
def sendOwned (screen : ScreenClipboards) (ids : List ClipboardID) : Client :=
  ids.foldl (fun c id => if c.ownClipboard id then c.sendClipboard screen id else c) c

def leave (screen : ScreenClipboards) : Client :=
  let c := { c with active := false, entered := false, pending := fun _ => false }
  if c.enableClipboard then c.sendOwned screen ClipboardID.all else c

/-- The server owns the clipboard (`setClipboard` and `grabClipboard`). -/
def disown (id : ClipboardID) : Client :=
  { c with
    ownClipboard := Function.update c.ownClipboard id false
    sentClipboard := Function.update c.sentClipboard id false
    pending := Function.update c.pending id false }

/-- The clipboard of the screen was grabbed. -/
def handleClipboardGrabbed (screen : ScreenClipboards) (id : ClipboardID) : Client :=
  if !c.enableClipboard || c.maximumClipboardSize = 0 then c
  else
    let c := { c with
      out := .grabClipboard id :: c.out
      ownClipboard := Function.update c.ownClipboard id true
      sentClipboard := Function.update c.sentClipboard id false
      timeClipboard := Function.update c.timeClipboard id 0
      pending := Function.update c.pending id c.entered
      lasting := Function.update c.lasting id true }
    if c.active then c else c.sendClipboard screen id

/-! ### Runs -/

/-- The events that the client handles. -/
inductive Event
  | connect
  | connected
  /-- The connection failed or took too long. -/
  | connectionFailed
  /-- The hello of the server; `ok` says that it was accepted. -/
  | hello (ok : Bool)
  | handshakeComplete
  /-- The connection was lost. -/
  | disconnected
  /-- The client ends the connection. -/
  | disconnect
  | suspend
  | resume
  | setOptions (options : List ℕ)
  | enter
  | leave
  | setClipboard (id : ClipboardID)
  | grabClipboard (id : ClipboardID)
  | clipboardGrabbed (id : ClipboardID)

/-- Handles an event, if its handler is installed. -/
def step (screen : ScreenClipboards) : Event → Option Client
  | .connect => some c.connect
  | .connected => if c.phase = .connecting then some c.handleConnected else none
  | .connectionFailed =>
    if c.phase = .connecting ∨ c.phase = .connected then some { c with phase := .disconnected }
    else none
  | .hello ok =>
    if c.phase = .connected then
      some { c with phase := if ok then .handshake else .disconnected }
    else none
  | .handshakeComplete => if c.phase = .handshake then some { c with phase := .ready } else none
  | .disconnected =>
    if c.phase = .connected ∨ c.isConnected then some { c with phase := .disconnected } else none
  | .disconnect => some c.disconnect
  | .suspend => some c.handleSuspend
  | .resume => some c.handleResume
  | .setOptions options => if c.isConnected then some (c.setOptions options) else none
  | .enter => if c.phase = .ready then some c.enter else none
  | .leave => if c.phase = .ready then some (c.leave screen) else none
  | .setClipboard id => if c.phase = .ready then some (c.disown id) else none
  | .grabClipboard id => if c.phase = .ready then some (c.disown id) else none
  | .clipboardGrabbed id =>
    if c.isConnected then some (c.handleClipboardGrabbed screen id) else none

/-- The runs of a client; each event comes with what the screen holds then. -/
def lts : LTS Client (ScreenClipboards × Event) where
  init c := c = {}
  step c l := c.step l.1 l.2

/-- The grab is announced, and the data follows in the same handler. -/
def SentAtOnce (screen : ScreenClipboards) (id : ClipboardID) (content : Clipboard) : Prop :=
  ∃ c', c.step screen (.clipboardGrabbed id) = some c' ∧
    c'.out = .clipboardChanged id content.marshall :: .grabClipboard id :: c.out

/-- The data is among what the leave sends. -/
def SentAtLeave (screen : ScreenClipboards) (id : ClipboardID) (content : Clipboard) : Prop :=
  ∃ c' sent, c.step screen .leave = some c' ∧ c'.out = sent ++ c.out ∧
    .clipboardChanged id content.marshall ∈ sent

/-- The content is not the one noted at the last look at the clipboard, or no time is noted; and it
was not sent. -/
def Due (id : ClipboardID) (content : Clipboard) : Prop :=
  (c.timeClipboard id = 0 ∨ content.timeOwned ≠ c.timeClipboard id) ∧
    (c.sentClipboard id = false ∨ content.marshall ≠ c.dataClipboard id)

instance (id : ClipboardID) (content : Clipboard) : Decidable (c.Due id content) :=
  inferInstanceAs (Decidable ((_ ∨ _) ∧ (_ ∨ _)))

/-- Sharing is enabled, and the screen holds the content, which is under the limit. -/
structure Shares (screen : ScreenClipboards) (id : ClipboardID) (content : Clipboard) : Prop where
  enabled : c.enableClipboard = true
  screen : screen id = some content
  limit : content.marshall.length < c.maximumClipboardSize

/-! ### Sending a clipboard -/

variable {c} {c' c'' : Client} {screen : ScreenClipboards} {id id' : ClipboardID}
  {ids : List ClipboardID} {content : Clipboard}

theorem getClipboard_eq (h : screen id = some content) : getClipboard screen id = content := by
  rw [getClipboard, h, Option.getD_some]

/-- All but the state of the clipboard is as before. -/
structure KeepsBut (id : ClipboardID) (c c' : Client) : Prop where
  active : c'.active = c.active
  entered : c'.entered = c.entered
  own : c'.ownClipboard = c.ownClipboard
  pending : c'.pending = c.pending
  lasting : c'.lasting = c.lasting
  limit : c'.maximumClipboardSize = c.maximumClipboardSize
  sent : ∀ id', id' ≠ id → c'.sentClipboard id' = c.sentClipboard id'
  time : ∀ id', id' ≠ id → c'.timeClipboard id' = c.timeClipboard id'

theorem keepsBut_sendClipboard (c : Client) (screen : ScreenClipboards) (id : ClipboardID) :
    KeepsBut id c (c.sendClipboard screen id) := by
  unfold sendClipboard
  dsimp only
  split_ifs
  · exact ⟨rfl, rfl, rfl, rfl, rfl, rfl, fun _ _ => rfl, fun _ h => Function.update_of_ne h ..⟩
  · exact ⟨rfl, rfl, rfl, rfl, rfl, rfl, fun _ h => Function.update_of_ne h ..,
      fun _ h => Function.update_of_ne h ..⟩
  · exact ⟨rfl, rfl, rfl, rfl, rfl, rfl, fun _ _ => rfl, fun _ h => Function.update_of_ne h ..⟩
  · exact ⟨rfl, rfl, rfl, rfl, rfl, rfl, fun _ _ => rfl, fun _ _ => rfl⟩

/-- What is noted about the clipboard is as before. -/
structure SameNotes (id : ClipboardID) (c c' : Client) : Prop where
  own : c'.ownClipboard id = c.ownClipboard id
  sent : c'.sentClipboard id = c.sentClipboard id
  time : c'.timeClipboard id = c.timeClipboard id
  data : c'.dataClipboard id = c.dataClipboard id

theorem SameNotes.refl (id : ClipboardID) (c : Client) : SameNotes id c c := ⟨rfl, rfl, rfl, rfl⟩

theorem SameNotes.trans (h : SameNotes id c c') (h' : SameNotes id c' c'') : SameNotes id c c'' :=
  ⟨h'.own.trans h.own, h'.sent.trans h.sent, h'.time.trans h.time, h'.data.trans h.data⟩

theorem SameNotes.due_iff (h : SameNotes id c c') : c'.Due id content ↔ c.Due id content := by
  simp only [Due, h.time, h.sent, h.data]

theorem sameNotes_sendClipboard (hne : id ≠ id') :
    SameNotes id c (c.sendClipboard screen id') := by
  unfold sendClipboard
  dsimp only
  split_ifs
  · exact ⟨rfl, rfl, Function.update_of_ne hne .., rfl⟩
  · exact ⟨rfl, Function.update_of_ne hne .., Function.update_of_ne hne ..,
      Function.update_of_ne hne ..⟩
  · exact ⟨rfl, rfl, Function.update_of_ne hne .., rfl⟩
  · exact .refl id c

/-- What `sendClipboard` sends. -/
theorem out_sendClipboard_eq (c : Client) (screen : ScreenClipboards) (id : ClipboardID) :
    (c.sendClipboard screen id).out =
      (if c.Due id (getClipboard screen id) ∧
          (getClipboard screen id).marshall.length < c.maximumClipboardSize then
        [.clipboardChanged id (getClipboard screen id).marshall] else []) ++ c.out := by
  unfold sendClipboard Due
  generalize getClipboard screen id = content
  dsimp only
  by_cases htime : c.timeClipboard id = 0 ∨ content.timeOwned ≠ c.timeClipboard id
  · rw [if_pos htime]
    by_cases hlimit : c.maximumClipboardSize ≤ content.marshall.length
    · rw [if_pos hlimit, if_neg fun h => Nat.not_lt.2 hlimit h.2]
      rfl
    · rw [if_neg hlimit]
      by_cases hnew : c.sentClipboard id = false ∨ content.marshall ≠ c.dataClipboard id
      · have hsend : (!c.sentClipboard id || content.marshall != c.dataClipboard id) = true := by
          simpa using hnew
        rw [if_pos hsend, if_pos ⟨⟨htime, hnew⟩, Nat.not_le.1 hlimit⟩]
        rfl
      · have hsame : ¬ (!c.sentClipboard id || content.marshall != c.dataClipboard id) = true := by
          simpa using hnew
        rw [if_neg hsame, if_neg fun h => hnew h.1.2]
        rfl
  · rw [if_neg htime, if_neg fun h => htime h.1.1]
    rfl

theorem sendOwned_cons (c : Client) (screen : ScreenClipboards) (id : ClipboardID)
    (ids : List ClipboardID) :
    c.sendOwned screen (id :: ids) =
      (if c.ownClipboard id then c.sendClipboard screen id else c).sendOwned screen ids := rfl

/-- What the loop of `leave` sends of a clipboard: as much as one `sendClipboard`. -/
theorem mem_sendOwned_iff (c : Client) (screen : ScreenClipboards) (hnodup : ids.Nodup)
    (id : ClipboardID) :
    ∃ sent, (c.sendOwned screen ids).out = sent ++ c.out ∧
      ∀ data, .clipboardChanged id data ∈ sent ↔
        (id ∈ ids ∧ c.ownClipboard id = true) ∧
          (c.Due id (getClipboard screen id) ∧
            (getClipboard screen id).marshall.length < c.maximumClipboardSize) ∧
          data = (getClipboard screen id).marshall := by
  induction ids generalizing c with
  | nil => exact ⟨[], rfl, fun data => by simp⟩
  | cons id' ids ih =>
    obtain ⟨hid', hnodup⟩ := List.nodup_cons.1 hnodup
    rw [sendOwned_cons]
    split_ifs with hown'
    · obtain ⟨rest, hrest, hmem⟩ := ih (c.sendClipboard screen id') hnodup
      have hfirst := out_sendClipboard_eq c screen id'
      rw [hfirst, ← List.append_assoc] at hrest
      refine ⟨_, hrest, fun data => ?_⟩
      rw [List.mem_append, hmem]
      by_cases hid : id = id'
      · -- the turn of the clipboard itself
        subst hid
        simp only [hid', false_and, false_or, List.mem_cons, true_or, hown', true_and]
        split_ifs with hsend
        · simp [hsend]
        · simp [hsend]
      · have hnotes : SameNotes id c (c.sendClipboard screen id') := sameNotes_sendClipboard hid
        have hlimit := (keepsBut_sendClipboard c screen id').limit
        rw [hnotes.own, hnotes.due_iff, hlimit]
        have hother : .clipboardChanged id data ∉ (if c.Due id' (getClipboard screen id') ∧
            (getClipboard screen id').marshall.length < c.maximumClipboardSize then
            [ClientOutput.clipboardChanged id' (getClipboard screen id').marshall] else []) := by
          split_ifs <;> simp [hid]
        simp [hother, hid]
    · obtain ⟨rest, hrest, hmem⟩ := ih c hnodup
      refine ⟨rest, hrest, fun data => ?_⟩
      rw [hmem]
      by_cases hid : id = id'
      · subst hid
        simp [hown']
      · simp [hid]

/-! ### Every run -/

/-- The screen counts as active where it was entered, and what is pending will be sent at the leave
unless the connection was replaced. -/
structure Inv (c : Client) : Prop where
  entered : c.entered = true → c.active = true
  lasting : ∀ id, c.pending id = true → c.lasting id = true →
    c.ownClipboard id = true ∧ c.sentClipboard id = false ∧ c.timeClipboard id = 0
  replaced : ∀ id, c.pending id = true → c.lasting id = false → c.ownClipboard id = false

/-- The members that `Inv` is about are as before. -/
structure Frame (c c' : Client) : Prop where
  active : c'.active = c.active
  entered : c'.entered = c.entered
  own : c'.ownClipboard = c.ownClipboard
  sent : c'.sentClipboard = c.sentClipboard
  time : c'.timeClipboard = c.timeClipboard
  pending : c'.pending = c.pending
  lasting : c'.lasting = c.lasting

theorem Inv.frame (h : c.Inv) (hf : Frame c c') : c'.Inv := by
  refine ⟨?_, ?_, ?_⟩
  · rw [hf.entered, hf.active]
    exact h.entered
  · rw [hf.pending, hf.lasting, hf.own, hf.sent, hf.time]
    exact h.lasting
  · rw [hf.pending, hf.lasting, hf.own]
    exact h.replaced

theorem frame_connect (c : Client) : Frame c c.connect := by
  unfold connect
  split_ifs <;> exact ⟨rfl, rfl, rfl, rfl, rfl, rfl, rfl⟩

theorem frame_handleResume (c : Client) : Frame c c.handleResume := by
  simp only [handleResume]
  split_ifs
  · obtain ⟨h₁, h₂, h₃, h₄, h₅, h₆, h₇⟩ :=
      frame_connect { c with suspended := false, connectOnResume := false }
    exact ⟨h₁, h₂, h₃, h₄, h₅, h₆, h₇⟩
  · exact ⟨rfl, rfl, rfl, rfl, rfl, rfl, rfl⟩

theorem frame_readOptions (options : List ℕ) (c : Client) : Frame c (readOptions options c) := by
  fun_induction readOptions options c with
  | case1 c | case2 c | case4 => exact ⟨rfl, rfl, rfl, rfl, rfl, rfl, rfl⟩
  | case3 => exact ⟨rfl, rfl, rfl, rfl, rfl, rfl, rfl⟩
  | case5 _ _ _ _ ih =>
    exact ⟨ih.active, ih.entered, ih.own, ih.sent, ih.time, ih.pending, ih.lasting⟩
  | case6 _ _ _ _ _ ih => exact ih

theorem frame_setOptions (c : Client) (options : List ℕ) : Frame c (c.setOptions options) := by
  obtain ⟨h₁, h₂, h₃, h₄, h₅, h₆, h₇⟩ := frame_readOptions options c
  simp only [setOptions]
  split_ifs <;> exact ⟨h₁, h₂, h₃, h₄, h₅, h₆, h₇⟩

theorem inv_handleConnected (c : Client) : c.handleConnected.Inv := ⟨nofun, nofun, fun _ _ _ => rfl⟩

theorem Inv.enter (h : c.Inv) : c.enter.Inv := ⟨fun _ => rfl, h.lasting, h.replaced⟩

/-- Sending clipboards leaves nothing pending that was not. -/
theorem pending_sendOwned (c : Client) (screen : ScreenClipboards) (ids : List ClipboardID) :
    (c.sendOwned screen ids).pending = c.pending ∧
      (c.sendOwned screen ids).entered = c.entered := by
  induction ids generalizing c with
  | nil => exact ⟨rfl, rfl⟩
  | cons id ids ih =>
    rw [sendOwned_cons]
    split_ifs
    · have hkeeps := keepsBut_sendClipboard c screen id
      obtain ⟨hpending, hentered⟩ := ih (c.sendClipboard screen id)
      exact ⟨hpending.trans hkeeps.pending, hentered.trans hkeeps.entered⟩
    · exact ih c

/-- The state after the screen was left, before anything is sent. -/
def noteLeave (c : Client) : Client :=
  { c with active := false, entered := false, pending := fun _ => false }

theorem leave_eq (c : Client) (screen : ScreenClipboards) :
    c.leave screen =
      if c.enableClipboard then c.noteLeave.sendOwned screen ClipboardID.all else c.noteLeave := rfl

/-- Nothing is pending after a leave. -/
theorem inv_leave (c : Client) (screen : ScreenClipboards) : (c.leave screen).Inv := by
  rw [leave_eq]
  split_ifs
  · obtain ⟨hpending, hentered⟩ := pending_sendOwned c.noteLeave screen ClipboardID.all
    refine ⟨?_, ?_, ?_⟩
    · rw [hentered]
      nofun
    · rw [hpending]
      nofun
    · rw [hpending]
      nofun
  · exact ⟨nofun, nofun, nofun⟩

theorem Inv.disown (h : c.Inv) (id : ClipboardID) : (c.disown id).Inv := by
  refine ⟨h.entered, fun id' hpending hlasting => ?_, fun id' hpending hlasting => ?_⟩
  · by_cases hid : id' = id
    · simp [Client.disown, hid] at hpending
    · simp only [Client.disown, Function.update_of_ne hid] at hpending ⊢
      exact h.lasting id' hpending hlasting
  · by_cases hid : id' = id
    · simp [Client.disown, hid] at hpending
    · simp only [Client.disown, Function.update_of_ne hid] at hpending ⊢
      exact h.replaced id' hpending hlasting

/-- The state after a grab was noted, before anything is sent. -/
def noteGrab (c : Client) (id : ClipboardID) : Client :=
  { c with
    out := .grabClipboard id :: c.out
    ownClipboard := Function.update c.ownClipboard id true
    sentClipboard := Function.update c.sentClipboard id false
    timeClipboard := Function.update c.timeClipboard id 0
    pending := Function.update c.pending id c.entered
    lasting := Function.update c.lasting id true }

theorem handleClipboardGrabbed_eq (c : Client) (screen : ScreenClipboards) (id : ClipboardID) :
    c.handleClipboardGrabbed screen id =
      if !c.enableClipboard || c.maximumClipboardSize = 0 then c
      else if c.active then c.noteGrab id else (c.noteGrab id).sendClipboard screen id := rfl

theorem Inv.noteGrab (h : c.Inv) (id : ClipboardID) : (c.noteGrab id).Inv := by
  refine ⟨h.entered, fun id' hpending hlasting => ?_, fun id' hpending hlasting => ?_⟩
  · by_cases hid : id' = id
    · simp [Client.noteGrab, hid]
    · simp only [Client.noteGrab, Function.update_of_ne hid] at hpending hlasting ⊢
      exact h.lasting id' hpending hlasting
  · by_cases hid : id' = id
    · simp [Client.noteGrab, hid] at hlasting
    · simp only [Client.noteGrab, Function.update_of_ne hid] at hpending hlasting ⊢
      exact h.replaced id' hpending hlasting

/-- Sending a clipboard that is not pending. -/
theorem Inv.sendClipboard (h : c.Inv) (screen : ScreenClipboards)
    (hid : c.pending id = false) : (c.sendClipboard screen id).Inv := by
  have hkeeps := keepsBut_sendClipboard c screen id
  refine ⟨?_, fun id' hpending hlasting => ?_, fun id' hpending hlasting => ?_⟩
  · rw [hkeeps.entered, hkeeps.active]
    exact h.entered
  · rw [hkeeps.pending] at hpending
    have hne : id' ≠ id := by
      rintro rfl
      rw [hid] at hpending
      cases hpending
    rw [hkeeps.own, hkeeps.sent id' hne, hkeeps.time id' hne]
    exact h.lasting id' hpending (by rw [← hkeeps.lasting, hlasting])
  · rw [hkeeps.pending] at hpending
    rw [hkeeps.own]
    exact h.replaced id' hpending (by rw [← hkeeps.lasting, hlasting])

theorem Inv.handleClipboardGrabbed (h : c.Inv) (screen : ScreenClipboards) (id : ClipboardID) :
    (c.handleClipboardGrabbed screen id).Inv := by
  rw [handleClipboardGrabbed_eq]
  split_ifs with hoff hactive
  · exact h
  · exact h.noteGrab id
  · refine (h.noteGrab id).sendClipboard screen ?_
    have hentered : c.entered = false := by
      cases hentered : c.entered with
      | true => exact absurd (h.entered hentered) hactive
      | false => rfl
    simp [Client.noteGrab, hentered]

theorem Inv.step (h : c.Inv) {e : Event} (hst : c.step screen e = some c') : c'.Inv := by
  cases e with
  | connect =>
    obtain rfl := Option.some.inj hst
    exact h.frame (frame_connect c)
  | connected =>
    obtain ⟨-, hst⟩ := Option.ite_none_right_eq_some.1 hst
    obtain rfl := Option.some.inj hst
    exact inv_handleConnected c
  | connectionFailed | hello | handshakeComplete | disconnected =>
    obtain ⟨-, hst⟩ := Option.ite_none_right_eq_some.1 hst
    obtain rfl := Option.some.inj hst
    exact h.frame ⟨rfl, rfl, rfl, rfl, rfl, rfl, rfl⟩
  | disconnect | suspend =>
    obtain rfl := Option.some.inj hst
    exact h.frame ⟨rfl, rfl, rfl, rfl, rfl, rfl, rfl⟩
  | resume =>
    obtain rfl := Option.some.inj hst
    exact h.frame (frame_handleResume c)
  | setOptions options =>
    obtain ⟨-, hst⟩ := Option.ite_none_right_eq_some.1 hst
    obtain rfl := Option.some.inj hst
    exact h.frame (frame_setOptions c options)
  | enter =>
    obtain ⟨-, hst⟩ := Option.ite_none_right_eq_some.1 hst
    obtain rfl := Option.some.inj hst
    exact h.enter
  | leave =>
    obtain ⟨-, hst⟩ := Option.ite_none_right_eq_some.1 hst
    obtain rfl := Option.some.inj hst
    exact inv_leave c screen
  | setClipboard id | grabClipboard id =>
    obtain ⟨-, hst⟩ := Option.ite_none_right_eq_some.1 hst
    obtain rfl := Option.some.inj hst
    exact h.disown id
  | clipboardGrabbed id =>
    obtain ⟨-, hst⟩ := Option.ite_none_right_eq_some.1 hst
    obtain rfl := Option.some.inj hst
    exact h.handleClipboardGrabbed screen id

theorem inv_of_reachable (hc : lts.Reachable c) : c.Inv := by
  refine hc.invariant ?_ fun c l c' h _ hst => h.step hst
  rintro _ rfl
  exact ⟨nofun, nofun, nofun⟩

/-- A grab is followed by its data unless the screen counts as active. -/
theorem sentAtOnce_iff (hconnected : c.isConnected = true) (hshares : c.Shares screen id content) :
    c.SentAtOnce screen id content ↔ c.active = false := by
  have hon : (!c.enableClipboard || decide (c.maximumClipboardSize = 0)) = false := by
    have hlimit := hshares.limit
    simp [hshares.enabled]
    omega
  have hst : c.step screen (.clipboardGrabbed id) = some (c.handleClipboardGrabbed screen id) := by
    simp [Client.step, hconnected]
  have hto : c.handleClipboardGrabbed screen id =
      if c.active then c.noteGrab id else (c.noteGrab id).sendClipboard screen id := by
    rw [handleClipboardGrabbed_eq, hon]
    rfl
  constructor
  · rintro ⟨c', hst', hout⟩
    obtain rfl := Option.some.inj (hst.symm.trans hst')
    cases hactive : c.active with
    | false => rfl
    | true =>
      rw [hto, if_pos hactive] at hout
      have hlength := congrArg List.length hout
      simp [noteGrab] at hlength
  · intro hactive
    refine ⟨_, hst, ?_⟩
    rw [hto, if_neg (by simp [hactive])]
    have hdue : (c.noteGrab id).Due id content := by
      simp [Due, noteGrab]
    rw [out_sendClipboard_eq, getClipboard_eq hshares.screen, if_pos ⟨hdue, hshares.limit⟩]
    rfl

/-- A leave sends a clipboard that the client owns and takes for a new one. -/
theorem sentAtLeave_iff_due (hready : c.phase = .ready) (hshares : c.Shares screen id content) :
    c.SentAtLeave screen id content ↔ c.ownClipboard id = true ∧ c.Due id content := by
  have hst : c.step screen .leave = some (c.noteLeave.sendOwned screen ClipboardID.all) := by
    simp [Client.step, hready, leave_eq, hshares.enabled]
  obtain ⟨sent, hout, hmem⟩ := mem_sendOwned_iff c.noteLeave screen ClipboardID.nodup_all id
  have hiff := hmem content.marshall
  rw [getClipboard_eq hshares.screen] at hiff
  constructor
  · rintro ⟨c', sent', hst', hout', hin⟩
    obtain rfl := Option.some.inj (hst.symm.trans hst')
    obtain rfl : sent' = sent := List.append_cancel_right (hout'.symm.trans hout)
    obtain ⟨⟨-, hown⟩, ⟨hdue, -⟩, -⟩ := hiff.1 hin
    exact ⟨hown, hdue⟩
  · rintro ⟨hown, hdue⟩
    exact ⟨_, sent, hst, hout,
      hiff.2 ⟨⟨ClipboardID.mem_all id, hown⟩, ⟨hdue, hshares.limit⟩, rfl⟩⟩

/-- What is pending is sent at the leave unless the connection was replaced. -/
theorem sentAtLeave_iff (h : c.Inv) (hready : c.phase = .ready)
    (hshares : c.Shares screen id content) (hpending : c.pending id = true) :
    c.SentAtLeave screen id content ↔ c.lasting id = true := by
  rw [sentAtLeave_iff_due hready hshares]
  constructor
  · rintro ⟨hown, -⟩
    by_contra hlasting
    rw [h.replaced id hpending (by simpa using hlasting)] at hown
    cases hown
  · intro hlasting
    obtain ⟨hown, hsent, htime⟩ := h.lasting id hpending hlasting
    exact ⟨hown, .inl htime, .inl hsent⟩

/-- A text of two characters. -/
def copiedText : Clipboard := (Clipboard.clear 5).add .text [104, 105]

/-- Both clipboards hold the text. -/
def textScreen : ScreenClipboards := fun _ => some copiedText

/-- Events while the screen holds the text. -/
def withText (events : List Event) : List (ScreenClipboards × Event) :=
  events.map fun e => (textScreen, e)

/-- The client connects. -/
def connecting : List Event := [.connect, .connected, .hello true, .handshakeComplete]

/-- A run that ends with a client that shares, given what it is about. -/
theorem exists_shares (events : List Event) {β : Type} (f : Client → β) (b : β)
    (hrun : (lts.exec {} (withText events)).map
      (fun c => (c.enableClipboard,
        decide (copiedText.marshall.length < c.maximumClipboardSize), f c)) =
      some (true, true, b)) :
    ∃ c : Client, lts.Reachable c ∧ f c = b ∧ c.Shares textScreen .clipboard copiedText := by
  obtain ⟨c, hc, hfields⟩ := Option.map_eq_some_iff.1 hrun
  obtain ⟨henabled, hfields⟩ := Prod.mk.inj hfields
  obtain ⟨hlimit, hf⟩ := Prod.mk.inj hfields
  exact ⟨c, .of_exec rfl hc, hf, henabled, rfl, of_decide_eq_true hlimit⟩

end Client

end InputLeap
