import InputLeap.Protocol.Types

/-!
# Input filter rules

A rule of the input filter has a condition and the actions performed when the condition starts
and stops to hold.  Rules come from the `options` section of the configuration; the server adds
one of its own for the Scroll Lock key.

## Main definitions

* `Condition`, `Action`, `Rule` : the data of a rule.
* `Rule.scrollLock` : the rule the server adds when the configuration has no
  `LockCursorToScreenAction`.
-/

namespace InputLeap

namespace InputFilter

/-- The new state that an action asks for. -/
inductive Mode
  | off
  | on
  | toggle
  deriving DecidableEq, Repr

/-- The keys of a keystroke and the screens it is meant for (`IPlatformScreen::KeyInfo`). -/
structure KeyInfo where
  key : ℕ
  mask : ℕ
  button : ℕ
  count : ℤ
  /-- The screens, as `KeyInfo::join` writes them. -/
  screens : String
  deriving DecidableEq, Repr

/-- The loop of `IKeyState::KeyInfo::join` over the destinations, in the order of the set. -/
def KeyInfo.joinNames : List String → String → String
  | [], screens => screens
  | i :: rest, screens =>
    if i = "*" then "*"
    else joinNames rest ((if screens = "" then ":" else screens) ++ i ++ ":")

/-- When a rule acts. -/
inductive Condition
  | keystroke (key mask : ℕ)
  | mouseButton (button mask : ℕ)
  | screenConnected (screen : String)
  deriving DecidableEq, Repr

/-- What a rule does. -/
inductive Action
  | lockCursorToScreen (mode : Mode)
  | switchToScreen (screen : String)
  | toggleScreen
  | switchInDirection (dir : Direction)
  | keyboardBroadcast (mode : Mode) (screens : String)
  | keystroke (info : KeyInfo) (press : Bool)
  | mouseButton (button mask : ℕ) (press : Bool)
  deriving DecidableEq, Repr

/-- A rule: its condition and the actions on activation and deactivation. -/
structure Rule where
  /-- `none` never matches. -/
  condition : Option Condition
  activateActions : List Action := []
  deactivateActions : List Action := []
  deriving DecidableEq, Repr

namespace Rule

/-- Adds an action to the rule. -/
def adoptAction (r : Rule) (a : Action) (onActivation : Bool) : Rule :=
  if onActivation then { r with activateActions := r.activateActions ++ [a] }
  else { r with deactivateActions := r.deactivateActions ++ [a] }

/-- The number of the Scroll Lock key (`kKeyScrollLock`). -/
def keyScrollLock : ℕ := 0xEF14

/-- The rule `setConfig` adds: Scroll Lock toggles locking the cursor to the screen. -/
def scrollLock : Rule :=
  adoptAction { condition := some (.keystroke keyScrollLock 0) } (.lockCursorToScreen .toggle) true

end Rule

end InputFilter

end InputLeap
