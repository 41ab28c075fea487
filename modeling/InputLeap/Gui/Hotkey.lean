import InputLeap.Text.Scan
import Mathlib.Data.Nat.Bitwise

/-!
# Hotkeys of the GUI

The GUI keeps a hotkey as the keys that were recorded for it and a list of actions, and writes it
as a line of the `options` section.

## Main definitions

* `Gui.KeySequence`, `Gui.Action`, `Gui.Hotkey` : the data of a hotkey.
* `Gui.KeySequence.record` : the recording of a sequence.
* `Gui.keyToString`, `Gui.Action.text`, `Gui.Hotkey.write` : what is written.

The lower case of a character that is not ASCII is a parameter (`QChar::toLower`).
-/

namespace InputLeap

namespace Gui

/-! ### Keys -/

/-- `keyname`: the codes of keys (`Qt::Key`) and their names. -/
def keyname : List (ℕ × String) :=
  [(0x20, "Space"), (0x01000000, "Escape"), (0x01000001, "Tab"), (0x01000002, "LeftTab"),
    (0x01000003, "BackSpace"), (0x01000004, "Return"), (0x01000006, "Insert"),
    (0x01000007, "Delete"), (0x01000008, "Pause"), (0x01000009, "Print"), (0x0100000a, "SysReq"),
    (0x01000010, "Home"), (0x01000011, "End"), (0x01000012, "Left"), (0x01000013, "Up"),
    (0x01000014, "Right"), (0x01000015, "Down"), (0x01000016, "PageUp"), (0x01000017, "PageDown"),
    (0x01000024, "CapsLock"), (0x01000025, "NumLock"), (0x01000026, "ScrollLock"),
    (0x01000055, "Menu"), (0x01000058, "Help"), (0x01000005, "KP_Enter"), (0x0100000b, "Clear"),
    (0x2c, "Comma"), (0x3b, "Semicolon"), (0x01000061, "WWWBack"), (0x01000062, "WWWForward"),
    (0x01000063, "WWWStop"), (0x01000064, "WWWRefresh"), (0x01000070, "AudioDown"),
    (0x01000071, "AudioMute"), (0x01000072, "AudioUp"), (0x01000080, "AudioPlay"),
    (0x01000081, "AudioStop"), (0x01000082, "AudioPrev"), (0x01000083, "AudioNext"),
    (0x01000090, "WWWHome"), (0x01000091, "WWWFavorites"), (0x01000092, "WWWSearch"),
    (0x01000093, "Sleep"), (0x010000a0, "AppMail"), (0x010000a1, "AppMedia"),
    (0x010000a2, "AppUser1"), (0x010000a3, "AppUser2"), (0x01010000, "Select")]

/-- `Qt::Key_F1`. -/
def keyF1 : ℕ := 0x01000030

/-- `Qt::Key_AltGr`. -/
def keyAltGr : ℕ := 0x01001103

/-- `Qt::Key_Control`, `Key_Alt`, `Key_Shift`, `Key_Meta` and `Key_Menu`. -/
def modifierKeys : List ℕ := [0x01000021, 0x01000023, 0x01000020, 0x01000022, 0x01000055]

variable (toLower : ℕ → ℕ)

/-- `KeySequence::keyToString` of a key that is neither a mouse button nor a modifier. -/
def keyName (key : ℕ) : Text :=
  match keyname.find? (·.1 == key) with
  | some (_, name) => name.toList
  | none =>
    if key < 0x80 then [(Char.ofNat key).toLower]
    else if keyF1 ≤ key ∧ key ≤ keyF1 + 34 then 'F' :: Nat.toDigits 10 (key - keyF1 + 1)
    else if key < 0x10000 then '\\' :: 'u' :: Text.hex4 (toLower key)
    else []

/-- `KeySequence::keyToString`: the bits from 25 on are `Qt::KeyboardModifiers`. -/
def keyToString (key : ℕ) : Text :=
  if key = 0 then []
  else if key < 0x20 then
    if key = 1 then ['1'] else if key = 2 then ['2'] else if key = 4 then ['3'] else ['4']
  else if key.testBit 25 then "Shift".toList
  else if key.testBit 26 then "Control".toList
  else if key.testBit 27 then "Alt".toList
  else if key.testBit 28 then "Meta".toList
  else keyName toLower (if key.testBit 29 then key - 2 ^ 29 else key)

/-- Keys and modifiers that were recorded. -/
structure KeySequence where
  sequence : List ℕ := []
  modifiers : ℕ := 0
  isValid : Bool := false
  deriving DecidableEq

namespace KeySequence

/-- The sequence ends with a mouse button. -/
def isMouseButton (ks : KeySequence) : Bool := ks.sequence.getLast?.any (· < 0x20)

/-- The keys with `+` between them. -/
def toString (ks : KeySequence) : Text :=
  List.intercalate ['+'] (ks.sequence.map (keyToString toLower))

/-- Appends a key, or the modifiers that are new if it is a modifier; `true` ends the
recording. -/
def appendKey (ks : KeySequence) (key modifiers : ℕ) : Bool × KeySequence :=
  if ks.sequence.length = 4 then (true, ks)
  else if key = keyAltGr then (false, ks)
  else if key ∈ modifierKeys then
    let mod := modifiers.ldiff ks.modifiers
    if mod ≠ 0 then
      (false, { ks with sequence := ks.sequence ++ [mod], modifiers := ks.modifiers ||| mod })
    else (false, ks)
  else if keyToString toLower key = [] then (false, ks)
  else (true, { ks with sequence := ks.sequence ++ [key], isValid := true })

/-- What the recorder is told. -/
inductive Press
  | key (key modifiers : ℕ)
  | mouse (button : ℕ)

/-- A value that an event can have: a `Qt::Key` with `Qt::KeyboardModifiers`, or a
`Qt::MouseButton`. -/
def Press.Possible : Press → Prop
  | .key k m => 0x20 ≤ k ∧ k < 2 ^ 25 ∧ ∀ n, m.testBit n = true → 25 ≤ n ∧ n < 31
  | .mouse b => ∃ i ≤ 26, b = 2 ^ i

/-- `keyPressEvent` and `mousePressEvent`. -/
def press (ks : KeySequence) : Press → Bool × KeySequence
  | .key key modifiers => ks.appendKey toLower key modifiers
  | .mouse button => ks.appendKey toLower button 0

/-- The recorded sequence, if the recording ends with a valid one. -/
def record (ks : KeySequence) : List Press → Option KeySequence
  | [] => none
  | p :: ps =>
    match ks.press toLower p with
    | (true, ks) => if ks.isValid then some ks else none
    | (false, ks) => ks.record ps

/-- The sequence was recorded. -/
def Recorded (ks : KeySequence) : Prop :=
  ∃ ps : List Press, (∀ p ∈ ps, p.Possible) ∧ record toLower {} ps = some ks

end KeySequence

/-! ### Actions -/

/-- What an action does. -/
inductive ActionType
  | keyDown
  | keyUp
  | keystroke
  | switchToScreen
  | toggleScreen
  | switchInDirection
  | lockCursorToScreen
  deriving DecidableEq

/-- Where `switchInDirection` goes. -/
inductive SwitchDirection
  | left
  | right
  | up
  | down

/-- What `lockCursorToScreen` does. -/
inductive LockCursorMode
  | toggle
  | on
  | off

/-- `switch_direction_names_`. -/
def SwitchDirection.name : SwitchDirection → Text
  | left => "left".toList
  | right => "right".toList
  | up => "up".toList
  | down => "down".toList

/-- `lock_cursor_mode_names_`. -/
def LockCursorMode.name : LockCursorMode → Text
  | toggle => "toggle".toList
  | on => "on".toList
  | off => "off".toList

/-- An action. -/
structure Action where
  keySequence : KeySequence
  type : ActionType
  typeScreenNames : List String
  switchScreenName : String
  switchDirection : SwitchDirection
  lockCursorMode : LockCursorMode
  activeOnRelease : Bool
  haveScreens : Bool

namespace Action

/-- `action_type_names_`. -/
def typeNames : List String :=
  ["keyDown", "keyUp", "keystroke", "switchToScreen", "toggleScreen", "switchInDirection",
    "lockCursorToScreen", "mouseDown", "mouseUp", "mousebutton"]

variable (a : Action)

/-- The name that is written; `none` if it is read behind the end of the names. -/
def typeName : Option Text :=
  let index := a.type.ctorIdx
  (typeNames[if a.keySequence.isMouseButton then index + 7 else index]?).map String.toList

/-- The screens behind the keys of an action. -/
def screenArgs : Text :=
  if a.haveScreens ∧ a.typeScreenNames ≠ [] then
    ',' :: List.intercalate [':'] (a.typeScreenNames.map String.toList)
  else ",*".toList

/-- The arguments, without parentheses if there are none. -/
def args : Option Text :=
  match a.type with
  | .keyDown | .keyUp | .keystroke =>
    let keys := a.keySequence.toString toLower
    some (if a.keySequence.isMouseButton then keys else keys ++ a.screenArgs)
  | .switchToScreen => some a.switchScreenName.toList
  | .switchInDirection => some a.switchDirection.name
  | .lockCursorToScreen => some a.lockCursorMode.name
  | .toggleScreen => none

/-- `Action::text`. -/
def text : Option Text :=
  a.typeName.map fun name =>
    match a.args toLower with
    | some args => name ++ '(' :: args ++ [')']
    | none => name

/-- What is written for an action. -/
def write : Option Text :=
  (a.text toLower).map fun text => if a.activeOnRelease then ';' :: text else text

end Action

/-! ### Hotkeys -/

/-- A hotkey. -/
structure Hotkey where
  keySequence : KeySequence
  actions : List Action

namespace Hotkey

variable (h : Hotkey)

/-- `Hotkey::text`. -/
def text : Text :=
  (if h.keySequence.isMouseButton then "mousebutton(".toList else "keystroke(".toList) ++
    h.keySequence.toString toLower ++ [')']

/-- The line of a hotkey; none is written without actions. -/
def write : Option Text :=
  if h.actions = [] then some []
  else
    (h.actions.mapM (Action.write toLower)).map fun actions =>
      '\t' :: h.text toLower ++ " = ".toList ++ List.intercalate ", ".toList actions ++ ['\n']

end Hotkey

end Gui

end InputLeap
