import InputLeap.Server.Focus
import InputLeap.Text.Scan

/-!
# Keys on the screens

The server passes key events to the active screen, or to the screens that the event or keyboard
broadcasting names.  Where an event goes is decided anew for each event: nothing remembers where
a key went down.

## Main definitions

* `KeyRelay` : a server and its keyboard broadcasting.
* `KeyRelay.onKeyDown`, `KeyRelay.onKeyUp`, `KeyRelay.onKeyRepeat` : the calls on the proxies.
* `Route` : where the settings send a key event.
* `KeyWatch` : a relay, the keys that are down on the screens, and the routes that they took.
* `KeyWatch.Releases` : every screen that a button is down on gets its release.
* `KeyWatch.Covered` : the release of a button is sent wherever its presses were.

## Main results

* `KeyWatch.releases_iff_of_reachable` : throughout runs the first holds exactly if the second
  does.
-/

namespace InputLeap

/-- The characters that `c_str` of a string points to, up to the first null character. -/
def cStr (s : String) : Text := s.toList.takeWhile fun c => c.val != 0

namespace InputFilter.KeyInfo

/-- The screens of a key event; `none` is the null pointer. -/
def screensOrNullptr (info : KeyInfo) : Option Text :=
  if info.screens = "" then none else some (cStr info.screens)

/-- The screens are not given. -/
def isDefault : Option Text → Bool
  | none => true
  | some screens => screens.isEmpty

/-- The screens include the one with the name. -/
def contains (screens : Option Text) (name : String) : Bool :=
  match screens with
  | none | some [] => false
  | some (c :: rest) => c == '*' || cStr (":" ++ name ++ ":") <:+: c :: rest

end InputFilter.KeyInfo

open InputFilter (KeyInfo Mode)

/-- A call on a proxy that concerns keys. -/
inductive KeyCall
  | keyDown (c : ClientID) (id mask button : ℕ)
  | keyRepeat (c : ClientID) (id mask : ℕ) (count : ℤ) (button : ℕ)
  | keyUp (c : ClientID) (id mask button : ℕ)
  deriving DecidableEq

/-- The screen and the button that the call presses. -/
def KeyCall.pressed : KeyCall → Option (ClientID × ℕ)
  | .keyDown c _ _ button => some (c, button)
  | _ => none

/-- A server and its keyboard broadcasting. -/
structure KeyRelay where
  server : Server
  keyboardBroadcasting : Bool := false
  keyboardBroadcastingScreens : String := ""

namespace KeyRelay

variable (r : KeyRelay)

/-- The names that are looked up in the screens of an event. -/
def screensOf (screens : Option Text) : Option Text :=
  if screens.isNone && r.keyboardBroadcasting then
    let screens := some (cStr r.keyboardBroadcastingScreens)
    if KeyInfo.isDefault screens then some ['*'] else screens
  else screens

/-- The screens that a press or a release is passed to. -/
def relay (screens : Option Text) : List ClientID :=
  if !r.keyboardBroadcasting && KeyInfo.isDefault screens then [r.server.focus.active]
  else
    let screens := r.screensOf screens
    r.server.registry.clients.toList.filterMap fun (name, c) =>
      if KeyInfo.contains screens name then some c else none

/-- The calls that a press makes. -/
def onKeyDown (info : KeyInfo) : List KeyCall :=
  (r.relay info.screensOrNullptr).map fun c => .keyDown c info.key info.mask info.button

/-- The calls that a release makes. -/
def onKeyUp (info : KeyInfo) : List KeyCall :=
  (r.relay info.screensOrNullptr).map fun c => .keyUp c info.key info.mask info.button

/-- The call that a repetition makes.  It goes to the active screen only. -/
def onKeyRepeat (info : KeyInfo) : List KeyCall :=
  [.keyRepeat r.server.focus.active info.key info.mask info.count info.button]

/-- Turns broadcasting on or off. -/
def handleKeyboardBroadcastEvent (state : Mode) (screens : String) : KeyRelay :=
  let newState := match state with
    | .off => false
    | .on => true
    | .toggle => !r.keyboardBroadcasting
  if newState ≠ r.keyboardBroadcasting ∨ screens ≠ r.keyboardBroadcastingScreens then
    { r with keyboardBroadcasting := newState, keyboardBroadcastingScreens := screens }
  else r

end KeyRelay

/-! ### Routes -/

/-- Where the settings send a press or a release. -/
inductive Route
  /-- To the active screen. -/
  | active
  /-- To the screens with the names. -/
  | listed (screens : Option Text)
  deriving DecidableEq

namespace Route

variable (s : Server)

/-- The screen is one that the route leads to. -/
def Reaches (c : ClientID) : Route → Prop
  | .active => c = s.focus.active
  | .listed screens => ∃ name : String, s.registry.clients[name]? = some c ∧
      KeyInfo.contains screens name = true

/-- The first route leads wherever the second does: both lead to the active screen, or every
connected screen whose name is in the second list is one whose name is in the first, where the
active screen stands for a list of itself. -/
def Covers : Route → Route → Prop
  | .active, .active => True
  | .active, .listed screens => ∀ (name : String) (c : ClientID),
      s.registry.clients[name]? = some c → KeyInfo.contains screens name = true →
        c = s.focus.active
  | .listed screens, .active => ∃ name : String,
      s.registry.clients[name]? = some s.focus.active ∧ KeyInfo.contains screens name = true
  | .listed screens, .listed screens' => ∀ (name : String) (c : ClientID),
      s.registry.clients[name]? = some c → KeyInfo.contains screens' name = true →
        ∃ name' : String, s.registry.clients[name']? = some c ∧
          KeyInfo.contains screens name' = true

variable {s}

theorem covers_iff {r r' : Route} : r.Covers s r' ↔ ∀ c, r'.Reaches s c → r.Reaches s c := by
  cases r with
  | active =>
    cases r' with
    | active => simp [Covers]
    | listed screens =>
      simp only [Covers, Reaches, forall_exists_index, and_imp]
      exact forall_comm
  | listed screens =>
    cases r' with
    | active => simp [Covers, Reaches]
    | listed screens' =>
      simp only [Covers, Reaches, forall_exists_index, and_imp]
      exact forall_comm

/-- A route leads wherever it leads. -/
theorem covers_refl (r : Route) : r.Covers s r := covers_iff.2 fun _ h => h

end Route

namespace KeyRelay

variable (r : KeyRelay)

/-- Where an event with the screens is sent. -/
def route (screens : Option Text) : Route :=
  if !r.keyboardBroadcasting && KeyInfo.isDefault screens then .active
  else .listed (r.screensOf screens)

variable {r}

theorem mem_relay {screens : Option Text} {c : ClientID} :
    c ∈ r.relay screens ↔ (r.route screens).Reaches r.server c := by
  unfold relay route
  split
  · simp [Route.Reaches]
  · simp only [List.mem_filterMap, Prod.exists, Option.ite_none_right_eq_some,
      Option.some.injEq, Route.Reaches, Std.TreeMap.mem_toList_iff_getElem?_eq_some]
    constructor
    · rintro ⟨name, d, hname, hcontains, rfl⟩
      exact ⟨name, hname, hcontains⟩
    · rintro ⟨name, hname, hcontains⟩
      exact ⟨name, c, hname, hcontains, rfl⟩

theorem server_handleKeyboardBroadcastEvent (r : KeyRelay) (state : Mode) (screens : String) :
    (r.handleKeyboardBroadcastEvent state screens).server = r.server := by
  simp only [handleKeyboardBroadcastEvent]
  split_ifs <;> rfl

end KeyRelay

/-! ### Runs -/

/-- A relay with notes of what was pressed since it was last released. -/
structure KeyWatch where
  relay : KeyRelay
  /-- The screens and buttons that `keyDown` was called for. -/
  held : List (ClientID × ℕ) := []
  /-- The buttons that were pressed and where each press was sent. -/
  presses : List (ℕ × Route) := []

namespace KeyWatch

/-- The events of the keyboard. -/
inductive Event
  | keyDown (info : KeyInfo)
  | keyRepeat (info : KeyInfo)
  | keyUp (info : KeyInfo)
  | keyboardBroadcast (state : Mode) (screens : String)

variable (w : KeyWatch)

/-- Notes the presses among the calls. -/
def note (calls : List KeyCall) : KeyWatch :=
  { w with held := w.held ++ calls.filterMap KeyCall.pressed }

/-- Forgets a button that was released. -/
def forget (button : ℕ) : KeyWatch :=
  { w with
    held := w.held.filter (·.2 ≠ button)
    presses := w.presses.filter (·.1 ≠ button) }

/-- Handles one event. -/
def handle : Event → KeyWatch
  | .keyDown info =>
    let w := w.note (w.relay.onKeyDown info)
    { w with presses := w.presses ++ [(info.button, w.relay.route info.screensOrNullptr)] }
  | .keyRepeat info => w.note (w.relay.onKeyRepeat info)
  | .keyUp info => (w.note (w.relay.onKeyUp info)).forget info.button
  | .keyboardBroadcast state screens =>
    { w with relay := w.relay.handleKeyboardBroadcastEvent state screens }

/-- The runs of a server that does not switch screens. -/
def lts : LTS KeyWatch Event where
  init w := Server.lts.Reachable w.relay.server ∧ w = { relay := { server := w.relay.server } }
  step w e := some (w.handle e)

/-- Every screen on which the button is down gets its release. -/
def Releases (info : KeyInfo) : Prop :=
  ∀ c, (c, info.button) ∈ w.held →
    KeyCall.keyUp c info.key info.mask info.button ∈ w.relay.onKeyUp info

/-- The release is sent wherever the presses of the button were. -/
def Covered (info : KeyInfo) : Prop :=
  ∀ route, (info.button, route) ∈ w.presses →
    (w.relay.route info.screensOrNullptr).Covers w.relay.server route

/-- The keys that are down on the screens are those that some press was sent to. -/
def Inv : Prop :=
  ∀ c button, (c, button) ∈ w.held ↔
    ∃ route, (button, route) ∈ w.presses ∧ route.Reaches w.relay.server c

variable {w}

theorem mem_pressed_onKeyDown {r : KeyRelay} {info : KeyInfo} {c : ClientID} {button : ℕ} :
    (c, button) ∈ (r.onKeyDown info).filterMap KeyCall.pressed ↔
      button = info.button ∧ (r.route info.screensOrNullptr).Reaches r.server c := by
  rw [← KeyRelay.mem_relay]
  simp only [KeyRelay.onKeyDown, List.filterMap_map, List.mem_filterMap, Function.comp_apply,
    KeyCall.pressed, Option.some.injEq, Prod.mk.injEq]
  constructor
  · rintro ⟨d, hd, rfl, rfl⟩
    exact ⟨rfl, hd⟩
  · rintro ⟨rfl, hc⟩
    exact ⟨c, hc, rfl, rfl⟩

/-- A release presses nothing. -/
theorem pressed_onKeyUp (r : KeyRelay) (info : KeyInfo) :
    (r.onKeyUp info).filterMap KeyCall.pressed = [] := by
  simp [KeyRelay.onKeyUp, List.filterMap_map, KeyCall.pressed, Function.comp_def]

theorem mem_onKeyUp {r : KeyRelay} {info : KeyInfo} {c : ClientID} :
    KeyCall.keyUp c info.key info.mask info.button ∈ r.onKeyUp info ↔
      (r.route info.screensOrNullptr).Reaches r.server c := by
  rw [← KeyRelay.mem_relay]
  simp [KeyRelay.onKeyUp]

theorem Inv.handle (h : w.Inv) (e : Event) : (w.handle e).Inv := by
  intro c button
  cases e with
  | keyDown info =>
    simp only [KeyWatch.handle, note, List.mem_append, mem_pressed_onKeyDown, h c button,
      List.mem_singleton, Prod.mk.injEq]
    constructor
    · rintro (⟨route, hmem, hreach⟩ | ⟨rfl, hreach⟩)
      · exact ⟨route, .inl hmem, hreach⟩
      · exact ⟨_, .inr ⟨rfl, rfl⟩, hreach⟩
    · rintro ⟨route, hmem | ⟨rfl, rfl⟩, hreach⟩
      · exact .inl ⟨route, hmem, hreach⟩
      · exact .inr ⟨rfl, hreach⟩
  | keyRepeat info =>
    simpa [KeyWatch.handle, note, KeyRelay.onKeyRepeat, KeyCall.pressed] using h c button
  | keyUp info =>
    simp only [KeyWatch.handle, note, forget, pressed_onKeyUp, List.append_nil, List.mem_filter,
      h c button, decide_eq_true_eq]
    constructor
    · rintro ⟨⟨route, hmem, hreach⟩, hbutton⟩
      exact ⟨route, ⟨hmem, hbutton⟩, hreach⟩
    · rintro ⟨route, ⟨hmem, hbutton⟩, hreach⟩
      exact ⟨⟨route, hmem, hreach⟩, hbutton⟩
  | keyboardBroadcast state screens =>
    simpa only [KeyWatch.handle, KeyRelay.server_handleKeyboardBroadcastEvent] using h c button

theorem inv_of_reachable (hw : lts.Reachable w) : w.Inv := by
  refine hw.invariant ?_ ?_
  · rintro w ⟨-, hw⟩ c button
    rw [hw]
    simp
  · intro w e w' h _ hst
    obtain rfl := Option.some.inj hst
    exact h.handle e

/-- Along every run, the release of a button reaches every screen on which it is down exactly if
it is sent wherever the presses were. -/
theorem releases_iff_of_reachable (hw : lts.Reachable w) (info : KeyInfo) :
    w.Releases info ↔ w.Covered info := by
  have h : w.Inv := inv_of_reachable hw
  simp only [Releases, Covered, mem_onKeyUp, h _ info.button, Route.covers_iff]
  constructor
  · intro hreleases route hmem c hreach
    exact hreleases c ⟨route, hmem, hreach⟩
  · rintro hcovered c ⟨route, hmem, hreach⟩
    exact hcovered route hmem c hreach

/-- Nothing is stuck while the events of a button have the same screens and broadcasting stays as
it is. -/
theorem covered_of_forall_eq {info : KeyInfo}
    (h : ∀ route, (info.button, route) ∈ w.presses →
      route = w.relay.route info.screensOrNullptr) : w.Covered info :=
  fun route hmem => h route hmem ▸ Route.covers_refl route

/-! ### A modifier of a hotkey -/

/-- A press of Control. -/
def control : KeyInfo := ⟨0xEFE3, 0, 37, 1, ""⟩

/-- Control is pressed while keys are broadcast. -/
def pressed (s : Server) : KeyWatch :=
  (({ relay := { server := s } } : KeyWatch).handle (.keyboardBroadcast .on "")).handle
    (.keyDown control)

/-- A server with the screens `p`, which is active, and `b`. -/
theorem exists_server : ∃ s : Server, Server.lts.Reachable s ∧
    s.registry.clients[("b" : String)]? = some 1 ∧ s.focus.active = primaryClient := by
  have hrun : (Server.run {} Server.twoScreens ⟨"p", true⟩ ⟨0, 0, 100, 100, 50, 50⟩ false
      [({}, .clientConnected ⟨"b", true⟩ ⟨0, 0, 100, 100, 50, 50⟩), ({}, .adoptClient 1)]).map
      (fun s => (s.registry.clients[("b" : String)]?, s.focus.active)) =
      some (some 1, primaryClient) := by decide +kernel
  obtain ⟨s, hs, hpair⟩ := Option.map_eq_some_iff.1 hrun
  obtain ⟨hb, hactive⟩ := Prod.mk.inj hpair
  exact ⟨s, Server.reachable_of_run hs, hb, hactive⟩

theorem reachable_pressed {s : Server} (hs : Server.lts.Reachable s) :
    lts.Reachable (pressed s) :=
  .step (l := .keyDown control)
    (.step (l := .keyboardBroadcast .on "") (.init ⟨hs, rfl⟩) trivial rfl) trivial rfl

theorem presses_pressed (s : Server) :
    (pressed s).presses = [(control.button, .listed (some ['*']))] := rfl

theorem held_pressed {s : Server} (hs : Server.lts.Reachable s)
    (hb : s.registry.clients[("b" : String)]? = some 1) :
    (1, control.button) ∈ (pressed s).held :=
  (inv_of_reachable (reachable_pressed hs) 1 control.button).2
    ⟨.listed (some ['*']), by rw [presses_pressed, List.mem_singleton], "b", hb, rfl⟩

/-- While broadcasting stays on, the release reaches `b`. -/
theorem releases_pressed : ∃ w : KeyWatch, lts.Reachable w ∧ (1, control.button) ∈ w.held ∧
    w.Releases control := by
  obtain ⟨s, hs, hb, -⟩ := exists_server
  refine ⟨pressed s, reachable_pressed hs, held_pressed hs hb, ?_⟩
  refine (releases_iff_of_reachable (reachable_pressed hs) control).2 (covered_of_forall_eq ?_)
  intro route hmem
  rw [presses_pressed, List.mem_singleton] at hmem
  exact (Prod.mk.inj hmem).2

/-- When a hotkey with Control turns broadcasting off, Control stays down on `b`. -/
theorem not_releases_of_reachable :
    ¬∀ w : KeyWatch, lts.Reachable w → ∀ info, w.Releases info := by
  intro h
  obtain ⟨s, hs, hb, hactive⟩ := exists_server
  have hoff : lts.Reachable ((pressed s).handle (.keyboardBroadcast .off "")) :=
    .step (l := .keyboardBroadcast .off "") (reachable_pressed hs) trivial rfl
  have hup := mem_onKeyUp.1 (h _ hoff control 1 (held_pressed hs hb))
  have hone : (1 : ClientID) = s.focus.active := hup
  rw [hactive] at hone
  exact absurd hone (by decide)

end KeyWatch

end InputLeap
