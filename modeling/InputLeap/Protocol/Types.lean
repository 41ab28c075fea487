import Mathlib.Algebra.Group.Nat.Defs
import Mathlib.Data.Int.Notation
import Mathlib.Data.Nat.Notation

/-!
# Protocol and option constants

The enumerations and numbers shared by the server, the clients and the messages between them:
directions, clipboard ids, option identifiers, corner masks and the marks of a chunked transfer.
-/

namespace InputLeap

/-- The bytes of a `std::string` that holds data rather than text. -/
abbrev Bytes := List UInt8

/-- A side of a screen (`EDirection` without `kNoDirection`, which is `none`). -/
inductive Direction
  | left
  | right
  | top
  | bottom
  deriving DecidableEq, Repr

namespace Direction

/-- The number of the direction in `EDirection`. -/
def toNat : Direction → ℕ
  | left => 1
  | right => 2
  | top => 3
  | bottom => 4

/-- The mask of the direction (`EDirectionMask`). -/
def mask (d : Direction) : ℕ := 2 ^ d.toNat

end Direction

/-- The clipboards that are shared (`ClipboardID` below `kClipboardEnd`). -/
inductive ClipboardID
  | clipboard
  | selection
  deriving DecidableEq, Repr

namespace ClipboardID

/-- The ids below `kClipboardEnd`, in order. -/
def all : List ClipboardID := [clipboard, selection]

/-- The number of the clipboard in messages. -/
def toNat : ClipboardID → ℕ
  | clipboard => 0
  | selection => 1

/-- The clipboard with the number, if it is below `kClipboardEnd`. -/
def ofNat? : ℕ → Option ClipboardID
  | 0 => some clipboard
  | 1 => some selection
  | _ => none

@[simp] theorem mem_all (id : ClipboardID) : id ∈ all := by cases id <;> decide

theorem nodup_all : all.Nodup := by decide

@[simp] theorem ofNat?_toNat (id : ClipboardID) : ofNat? id.toNat = some id := by
  cases id <;> rfl

end ClipboardID

/-- The marks of the messages of a chunked transfer (`EDataTransfer`). -/
inductive DataTransfer
  | dataStart
  | dataChunk
  | dataEnd
  deriving DecidableEq, Repr

namespace DataTransfer

/-- The number of the mark in messages. -/
def toNat : DataTransfer → ℕ
  | dataStart => 1
  | dataChunk => 2
  | dataEnd => 3

/-- The mark with the number. -/
def ofNat? : ℕ → Option DataTransfer
  | 1 => some dataStart
  | 2 => some dataChunk
  | 3 => some dataEnd
  | _ => none

@[simp] theorem ofNat?_toNat (m : DataTransfer) : ofNat? m.toNat = some m := by cases m <;> rfl

end DataTransfer

/-- What handling one message of a transfer amounts to (`EDataReceived`). -/
inductive DataReceived
  | start
  | notFinish
  | finish
  | error
  deriving DecidableEq, Repr

/-- The option identifiers (`OptionID`), in the order of `option_types.h`. -/
inductive OptionID
  | halfDuplexCapsLock
  | halfDuplexNumLock
  | halfDuplexScrollLock
  | modifierMapForShift
  | modifierMapForControl
  | modifierMapForAlt
  | modifierMapForAltGr
  | modifierMapForMeta
  | modifierMapForSuper
  | heartbeat
  | screenSwitchCorners
  | screenSwitchCornerSize
  | screenSwitchDelay
  | screenSwitchTwoTap
  | screenSwitchNeedsShift
  | screenSwitchNeedsControl
  | screenSwitchNeedsAlt
  | screenSaverSync
  | xTestXineramaUnaware
  | screenPreserveFocus
  | relativeMouseMoves
  | win32KeepForeground
  | clipboardSharing
  | clipboardSharingSize
  deriving DecidableEq, Repr

/-- The four characters that `OPTION_CODE` packs. -/
def OptionID.text : OptionID → List Char
  | .halfDuplexCapsLock => ['H', 'D', 'C', 'L']
  | .halfDuplexNumLock => ['H', 'D', 'N', 'L']
  | .halfDuplexScrollLock => ['H', 'D', 'S', 'L']
  | .modifierMapForShift => ['M', 'M', 'F', 'S']
  | .modifierMapForControl => ['M', 'M', 'F', 'C']
  | .modifierMapForAlt => ['M', 'M', 'F', 'A']
  | .modifierMapForAltGr => ['M', 'M', 'F', 'G']
  | .modifierMapForMeta => ['M', 'M', 'F', 'M']
  | .modifierMapForSuper => ['M', 'M', 'F', 'R']
  | .heartbeat => ['H', 'A', 'R', 'T']
  | .screenSwitchCorners => ['S', 'S', 'C', 'M']
  | .screenSwitchCornerSize => ['S', 'S', 'C', 'S']
  | .screenSwitchDelay => ['S', 'S', 'W', 'T']
  | .screenSwitchTwoTap => ['S', 'S', 'T', 'T']
  | .screenSwitchNeedsShift => ['S', 'S', 'N', 'S']
  | .screenSwitchNeedsControl => ['S', 'S', 'N', 'C']
  | .screenSwitchNeedsAlt => ['S', 'S', 'N', 'A']
  | .screenSaverSync => ['S', 'S', 'V', 'R']
  | .xTestXineramaUnaware => ['X', 'T', 'X', 'U']
  | .screenPreserveFocus => ['S', 'F', 'O', 'C']
  | .relativeMouseMoves => ['M', 'D', 'L', 'T']
  | .win32KeepForeground => ['_', 'K', 'F', 'W']
  | .clipboardSharing => ['C', 'L', 'P', 'S']
  | .clipboardSharingSize => ['C', 'L', 'S', 'Z']

/-- The number of an option (`OPTION_CODE`): its four characters, most significant first. -/
def OptionID.code (o : OptionID) : ℕ := o.text.foldl (fun n c => 256 * n + c.toNat) 0

/-- The masks of the corners of a screen (`EScreenSwitchCornerMasks`). -/
def noCornerMask : ℕ := 0
@[inherit_doc noCornerMask] def topLeftMask : ℕ := 1
@[inherit_doc noCornerMask] def topRightMask : ℕ := 2
@[inherit_doc noCornerMask] def bottomLeftMask : ℕ := 4
@[inherit_doc noCornerMask] def bottomRightMask : ℕ := 8

/-- The modifier masks that a switch can require (`KeyModifierMask`). -/
def keyModifierShift : ℕ := 0x0001
@[inherit_doc keyModifierShift] def keyModifierControl : ℕ := 0x0002
@[inherit_doc keyModifierShift] def keyModifierAlt : ℕ := 0x0004
@[inherit_doc keyModifierShift] def keyModifierScrollLock : ℕ := 0x4000

end InputLeap
