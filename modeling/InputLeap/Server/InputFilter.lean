import InputLeap.Config.InputFilter
import InputLeap.LTS.Basic
import InputLeap.Maps.Growth
import InputLeap.Platform.HotKeys

/-!
# The input filter at run time

The filter gets the key, button and hot key events of the primary screen and those of clients that
connect.  The first rule whose condition matches performs its actions; an event that no rule
matches is passed on.  A rule for a keystroke is a hot key of the screen while the filter has a
primary client, and knows it by its id, which a copy of the rule does not have.

## Main definitions

* `InputFilter.Input`, `InputFilter.Posted` : the events that come in and go out.
* `InputFilter.handleEvent` : what is done with an event.
* `FilterRun` : the filter, the screen's hot keys and the hot key events on their way.
* `FilterRun.lts` : rules are added, the filter is enabled, keys go down and up and hot key events
  come to the filter, in any order.
-/

namespace InputLeap

namespace InputFilter

/-- What a condition answers to an event. -/
inductive FilterStatus
  | noMatch
  | activate
  | deactivate
  deriving DecidableEq

/-- The event is one of a key or button that goes down, or up. -/
def FilterStatus.of (down : Bool) : FilterStatus := if down then .activate else .deactivate

/-- A key event that the screen posts. -/
inductive KeyEventKind
  | down
  | up
  | repeating
  deriving DecidableEq

/-- The events that come to the filter. -/
inductive Input
  | hotKey (down : Bool) (id : ℕ)
  | button (down : Bool) (button mask : ℕ)
  | key (kind : KeyEventKind) (info : KeyInfo)
  | connected (screen : String)
  deriving DecidableEq

/-- The events that actions post to the server. -/
inductive Posted
  | lockCursorToScreen (mode : Mode)
  | switchToScreen (screen : String)
  | toggleScreen
  | switchInDirection (dir : Direction)
  | keyboardBroadcast (mode : Mode) (screens : String)
  | fakeInputBegin
  | fakeInputEnd
  | key (press : Bool) (info : KeyInfo)
  | button (press : Bool) (button mask : ℕ)
  deriving DecidableEq

/-- A rule and the id of its hot key, or zero. -/
structure Armed where
  rule : Rule
  id : ℕ := 0
  deriving DecidableEq

/-- `KeyModifierAltGr`, `KeyModifierCapsLock`, `KeyModifierNumLock` and `KeyModifierScrollLock`,
which cannot be combined with a mouse button. -/
def ignoreMask : ℕ := 0x7020

/-- `kKeySetModifiers`. -/
def keySetModifiers : ℕ := 0xEE06

/-- `kKeyClearModifiers`. -/
def keyClearModifiers : ℕ := 0xEE07

/-- What the condition of a rule answers; `id` is the hot key of a keystroke. -/
def Condition.match? (id : ℕ) : Condition → Input → FilterStatus
  | .keystroke _ _, .hotKey down hotKey => if hotKey ≠ id then .noMatch else .of down
  | .mouseButton button mask, .button down button' mask' =>
    if button' ≠ button ∨ mask' &&& (0xffffffff ^^^ ignoreMask) ≠ mask then .noMatch else .of down
  | .screenConnected screen, .connected screen' =>
    if screen = screen' ∨ screen = "" then .activate else .noMatch
  | _, _ => .noMatch

/-- What an action posts. -/
def Action.perform : Action → Input → List Posted
  | .lockCursorToScreen mode, _ => [.lockCursorToScreen mode]
  | .switchToScreen screen, e =>
    let connected := match e with
      | .connected screen' => if screen = "" then screen' else screen
      | _ => screen
    [.switchToScreen connected]
  | .toggleScreen, _ => [.toggleScreen]
  | .switchInDirection dir, _ => [.switchInDirection dir]
  | .keyboardBroadcast mode screens, _ => [.keyboardBroadcast mode screens]
  | .keystroke info press, _ => [.fakeInputBegin, .key press info, .fakeInputEnd]
  | .mouseButton button mask press, _ =>
    let modifiers := if press then keySetModifiers else keyClearModifiers
    (if mask ≠ 0 then [Posted.key true ⟨modifiers, mask, 0, 1, ""⟩] else []) ++
      [.button press button mask]

/-- The actions of a rule on a match. -/
def Rule.perform (r : Rule) (status : FilterStatus) (e : Input) : Option (List Posted) :=
  match status with
  | .noMatch => none
  | .activate => some (r.activateActions.flatMap (·.perform e))
  | .deactivate => some (r.deactivateActions.flatMap (·.perform e))

/-- What a rule does with an event. -/
def Armed.handleEvent (e : Input) (r : Armed) : Option (List Posted) :=
  match r.rule.condition with
  | none => none
  | some condition => r.rule.perform (condition.match? r.id e) e

/-- What the filter does with an event; without a result it is passed on. -/
def handleEvent (rules : List Armed) (e : Input) : Option (List Posted) :=
  rules.findSome? (·.handleEvent e)

/-- The copy of a rule. -/
def Armed.clone (r : Armed) : Armed := { r with id := 0 }

/-- Enables a rule: that of a keystroke becomes a hot key. -/
def Armed.enable (kb : XKeyboard) (errorAt : Option ℕ) (screen : HotKeys) (r : Armed) :
    HotKeys × Armed :=
  match r.rule.condition with
  | some (.keystroke key mask) =>
    let (screen, id) := screen.registerHotKey kb errorAt key mask
    (screen, { r with id })
  | _ => (screen, r)

/-- Disables a rule. -/
def Armed.disable (screen : HotKeys) (r : Armed) : HotKeys × Armed :=
  match r.rule.condition with
  | some (.keystroke _ _) => (screen.unregisterHotKey r.id, { r with id := 0 })
  | _ => (screen, r)

/-- Enables the rules one after the other; `errors` are the errors that the X server reports. -/
def enableAll (kb : XKeyboard) (errors : ℕ → Option ℕ) : ℕ → HotKeys → List Armed →
    HotKeys × List Armed
  | _, screen, [] => (screen, [])
  | n, screen, r :: rs =>
    let (screen, r) := r.enable kb (errors n) screen
    let (screen, rs) := enableAll kb errors (n + 1) screen rs
    (screen, r :: rs)

/-- Disables the rules one after the other. -/
def disableAll : HotKeys → List Armed → HotKeys × List Armed
  | screen, [] => (screen, [])
  | screen, r :: rs =>
    let (screen, r) := r.disable screen
    let (screen, rs) := disableAll screen rs
    (screen, r :: rs)

end InputFilter

open InputFilter

/-- The filter and the screen. -/
structure FilterRun where
  screen : HotKeys := {}
  ruleList : Growing Armed := {}
  /-- There is a primary client. -/
  primary : Bool := false
  /-- The hot key events that are posted and did not come to the filter yet. -/
  posted : List (Bool × ℕ) := []
  /-- For each key event whether the screen took it for a hot key. -/
  taken : List Bool := []
  /-- What was done with the events that came to the filter. -/
  done : List (Option (List Posted)) := []
  /-- The ids that the rules got when they were enabled, whether they still know them or not. -/
  given : List ℕ := []
  /-- The number of rules when the primary client was set. -/
  since : ℕ := 0

namespace FilterRun

/-- What happens. -/
inductive Act
  | addFilterRule (rule : Rule) (kb : XKeyboard) (errorAt : Option ℕ)
  /-- The primary client is set. -/
  | enable (kb : XKeyboard) (errors : ℕ → Option ℕ)
  /-- The screen gets a key event. -/
  | key (e : XKeyEvent) (isRepeat : Bool)
  /-- The first hot key event that waits comes to the filter. -/
  | deliver
  /-- Another event comes to the filter. -/
  | input (e : Input)

variable (grow : ℕ → ℕ) (s : FilterRun)

/-- Adds a rule.  The copy that the array got is the one that is enabled. -/
def addFilterRule (rule : Rule) (kb : XKeyboard) (errorAt : Option ℕ) : FilterRun :=
  if s.primary then
    let (screen, r) := Armed.enable kb errorAt s.screen { rule }
    { s with
      screen
      ruleList := s.ruleList.push grow Armed.clone r
      given := s.given ++ [r.id] }
  else { s with ruleList := s.ruleList.push grow Armed.clone { rule }, given := s.given ++ [0] }

/-- Sets the primary client. -/
def enable (kb : XKeyboard) (errors : ℕ → Option ℕ) : FilterRun :=
  if s.primary then s
  else
    let (screen, rules) := enableAll kb errors 0 s.screen s.ruleList.elems
    { s with
      screen
      ruleList := { s.ruleList with elems := rules }
      primary := true
      given := rules.map (·.id)
      since := rules.length }

/-- Removes the primary client. -/
def disable : FilterRun :=
  if s.primary then
    let (screen, rules) := disableAll s.screen s.ruleList.elems
    { s with screen, ruleList := { s.ruleList with elems := rules }, primary := false }
  else s

/-- The screen gets a key event. -/
def key (e : XKeyEvent) (isRepeat : Bool) : FilterRun :=
  match s.screen.onHotKey e isRepeat with
  | none => { s with taken := s.taken ++ [false] }
  | some event => { s with posted := s.posted ++ event.toList, taken := s.taken ++ [true] }

/-- The handlers of the filter are there while it has a primary client. -/
def handled (e : Input) : FilterRun :=
  if s.primary then { s with done := s.done ++ [handleEvent s.ruleList.elems e] } else s

/-- One step. -/
def step : Act → Option FilterRun
  | .addFilterRule rule kb errorAt => some (s.addFilterRule grow rule kb errorAt)
  | .enable kb errors => some (s.enable kb errors)
  | .key e isRepeat => some (s.key e isRepeat)
  | .deliver =>
    match s.posted with
    | [] => none
    | (down, id) :: posted => some ({ s with posted }.handled (.hotKey down id))
  | .input e =>
    match e with
    | .hotKey _ _ => none
    | e => some (s.handled e)

/-- The runs of a filter whose array grows like this, from the time when the screen has these
hot keys. -/
def lts (screen : HotKeys) : LTS FilterRun Act where
  init s := s = { screen }
  step := step grow

/-- There are ids for the rules that are enabled. -/
def Admits : FilterRun → Act → Prop
  | s, .addFilterRule .. => s.screen.hotKeys.size + 1 < 2 ^ 32
  | s, .enable .. => s.screen.hotKeys.size + s.ruleList.elems.length < 2 ^ 32
  | _, .key .. | _, .deliver | _, .input _ => True

instance : ∀ (s : FilterRun) (a : Act), Decidable (Admits s a)
  | _, .addFilterRule .. => inferInstanceAs (Decidable (_ < _))
  | _, .enable .. => inferInstanceAs (Decidable (_ < _))
  | _, .key .. | _, .deliver | _, .input _ => .isTrue trivial

end FilterRun

end InputLeap
