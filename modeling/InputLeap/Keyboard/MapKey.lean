import InputLeap.Keyboard.KeyMap
import Mathlib.Data.Finset.Basic

/-!
# The keystrokes of a key

`mapKey` makes the keystrokes for a key. It looks for the best way to synthesize it, switches the
modifiers as that needs, presses the buttons of the key, and switches the modifiers back.

## Main definitions

* `KeyMap.keysForKeyItem`, `KeyMap.keysToRestoreModifiers` : the keystrokes of one button with the
  modifiers for it, and those that undo the modifiers.
* `KeyMap.characterEntry`, `KeyMap.commandItem` : the way to synthesize a key.
* `KeyMap.mapKey` : the keystrokes of a key.
* `KeyMap.replay` : the buttons that are down after some keystrokes.

## Main results

* `KeyMap.pressed_modify`, `KeyMap.pressed_unmodify` : what switching a modifier leaves down.
-/

namespace InputLeap

namespace KeyMap

/-! ### Kinds of keys -/

/-- `KeyModifierCapsLock`. -/
def keyModifierCapsLock : KeyModifierMask := 0x1000

/-- The modifiers that make a key a command (`getCommandModifiers`): Control, Alt, AltGr, Meta
and Super. -/
def commandModifiers : KeyModifierMask := 0x2 ||| 0x4 ||| 0x20 ||| 0x8 ||| 0x10

/-- A command is after a button with the modifiers asked for, not after a character. -/
def isCommand (mask : KeyModifierMask) : Bool := mask &&& commandModifiers ≠ 0

/-- `kKeyNextGroup`. -/
def keyNextGroup : KeyID := 0xee08

/-- `kKeyPrevGroup`. -/
def keyPrevGroup : KeyID := 0xee0a

/-- `kKeySetModifiers`. -/
def keySetModifiers : KeyID := 0xee06

/-- `kKeyClearModifiers`. -/
def keyClearModifiers : KeyID := 0xee07

/-- The keys that `mapKey` takes for modifiers: Shift, Control, Alt, Meta and Super on both sides,
AltGr, and the locks. -/
def modifierIDs : List KeyID :=
  [0xefe1, 0xefe2, 0xefe3, 0xefe4, 0xefe9, 0xefea, 0xefe7, 0xefe8, 0xefeb, 0xefec, 0xef7e, 0xefe5,
    0xef7f, 0xef14]

/-- The item for a change of modifiers only (`m_modifierKeyItem`). -/
def modifierKeyItem : KeyItem := ⟨0, 0, 0, 0, 0, 0, false, false, 0⟩

/-- The modifiers that need not be as desired (`s_notRequiredMask`): AltGr, NumLock and
ScrollLock. -/
def notRequiredMask : KeyModifierMask := 0x20 ||| 0x2000 ||| 0x4000

/-- The required modifiers that a command ignores (`s_overrideModifiers`). -/
def overrideModifiers : KeyModifierMask := 0xffff

/-! ### Keystrokes of the items -/

section Items

variable (K : KeyMap)

/-- The keystrokes to synthesize an item, with the group before and after. Where modifiers cannot
be switched as needed there are none: the callers drop what was done until then. -/
def keysForKeyItem (desired override : KeyModifierMask) (isAutoRepeat : Bool) (item : KeyItem)
    (before : ℕ × Synthesis) : Option (ℕ × Synthesis) :=
  let s := before.2
  let s : Synthesis :=
    if before.1 = item.group then s
    else { s with keystrokes := s.keystrokes ++ [.group item.group true false] }
  if item.dead then
    match K.keysForModifierState item.button item.group item.required item.sensitive 0 s with
    | (false, _) => none
    | (true, s) => some (item.group, K.addKeystrokes .click item s)
  else
    let sensitive := item.sensitive &&& ~~~override
    match K.keysForModifierState item.button item.group item.required sensitive 0 s with
    | (false, _) => none
    | (true, s) =>
      -- the desired modifiers, as far as the item leaves a choice
      match K.keysForModifierState item.button item.group desired
          (~~~(sensitive ||| item.generates)) notRequiredMask s with
      | (false, _) => none
      | (true, s) =>
        some (item.group, K.addKeystrokes (if isAutoRepeat then .autorepeat else .press) item s)

/-- The keystrokes to synthesize one item after another. -/
def keysForKeyItems (desired override : KeyModifierMask) (isAutoRepeat : Bool) :
    List KeyItem → ℕ × Synthesis → Option (ℕ × Synthesis)
  | [], before => some before
  | item :: items, before =>
    (K.keysForKeyItem desired override isAutoRepeat item before).bind
      (keysForKeyItems desired override isAutoRepeat items)

/-- The buttons of some modifiers. -/
def collectButtons (modifiers : ModifierToKeys) : List KeyButton :=
  modifiers.entries.map fun e => e.2.button

/-- The keystroke that frees a modifier: that of a lock is switched off. -/
def releaseType (item : KeyItem) : KeystrokeType := if item.lock then .unmodify else .release

/-- The keystroke that holds a modifier again: that of a lock is switched on. -/
def pressType (item : KeyItem) : KeystrokeType := if item.lock then .modify else .press

/-- The keys of a list that are on none of some buttons are synthesized, but for those on the
button of an item. -/
def addMissing (type : KeyItem → KeystrokeType) (item : KeyItem) (buttons : List KeyButton)
    (entries : List (KeyModifierMask × KeyItem)) (s : Synthesis) : Synthesis :=
  entries.foldl (fun s e =>
    if e.2.button ≠ item.button ∧ e.2.button ∉ buttons then K.addKeystrokes (type e.2) e.2 s
    else s) s

/-- The modifiers are switched back to the desired ones: keys that are not wanted are released,
then keys that are wanted are pressed. -/
def keysToRestoreModifiers (item : KeyItem) (desiredModifiers : ModifierToKeys) (s : Synthesis) :
    Synthesis :=
  let oldModifiers := s.activeModifiers
  let s := K.addMissing releaseType item (collectButtons desiredModifiers) oldModifiers.entries s
  K.addMissing pressType item (collectButtons oldModifiers) desiredModifiers.entries s

end Items

/-! ### The way to synthesize a key -/

/-- The number of modifiers in a mask. -/
def getNumModifiers (state : KeyModifierMask) : ℕ :=
  (List.range 32).countP fun bit => state.getLsbD bit

/-- The place of the key that needs the fewest modifiers changed: the first whose modifiers are
exactly as desired if there is one. -/
def findBestKey (entries : KeyEntryList) (desired : KeyModifierMask) : Option ℕ :=
  (entries.findIdx? fun entry =>
    let item := entry.back
    item.required &&& desired = item.required ∧
      item.required &&& desired = item.sensitive &&& desired).or
    (entries.zipIdx.foldl (fun best entry =>
      let item := entry.1.back
      let n := getNumModifiers ((item.required ^^^ desired) &&& item.sensitive)
      if n < best.1 then (n, some entry.2) else best) (32, none)).2

section Mapping

variable (K : KeyMap)

/-- The group that is `offset` groups after a group. -/
def getEffectiveGroup (group offset : ℕ) : ℕ := (group + offset + K.numGroups) % K.numGroups

/-- The best way to synthesize a character, in the first group that has one. -/
def characterEntry (table : KeyGroupTable) (group : ℕ) (desired : KeyModifierMask) :
    Option KeyItemList :=
  (List.range K.numGroups).findSome? fun offset =>
    let entries := table.getD (K.getEffectiveGroup group offset) []
    (findBestKey entries desired).bind (entries[·]?)

/-- The item suits a command: Shift is as desired where it matters, and the other required
modifiers are desired. -/
def suitsCommand (desired : KeyModifierMask) (item : KeyItem) : Bool :=
  let shift : KeyModifierMask := 0x1
  (item.required &&& (shift &&& desired) = item.sensitive &&& (shift &&& desired)) ∧
    item.required &&& ~~~shift &&& desired = item.required &&& ~~~shift

/-- The first button for a command. -/
def commandItem (table : KeyGroupTable) (group : ℕ) (desired : KeyModifierMask) :
    Option KeyItem :=
  (List.range K.numGroups).findSome? fun offset =>
    (table.getD (K.getEffectiveGroup group offset) []).findSome? fun entry =>
      match entry.1 with
      | [item] => if suitsCommand desired item then some item else none
      | _ => none

/-- Items are synthesized, and the modifiers and the group are restored after that. Where this
fails there are no keystrokes, and the modifiers stay. -/
def mapItems (items : List KeyItem) (keyItem : KeyItem) (group : ℕ)
    (desired override : KeyModifierMask) (isAutoRepeat : Bool) (s : Synthesis) :
    Option KeyItem × Synthesis :=
  match K.keysForKeyItems desired override isAutoRepeat items (group, s) with
  | none => (none, { s with keystrokes := [] })
  | some (newGroup, s') =>
    let s' := K.keysToRestoreModifiers keyItem s.activeModifiers s'
    (some keyItem,
      if newGroup = group then s'
      else { s' with keystrokes := s'.keystrokes ++ [.group group true true] })

/-- A command: the first button for it, with the desired modifiers but for CapsLock. -/
def mapCommandKey (id : KeyID) (group : ℕ) (desired : KeyModifierMask) (isAutoRepeat : Bool)
    (s : Synthesis) : Option KeyItem × Synthesis :=
  match K.keyIDMap[id]? with
  | none => (none, s)
  | some table =>
    match K.commandItem table group desired with
    | none => (none, s)
    | some keyItem =>
      let desired :=
        (desired &&& ~~~keyModifierCapsLock) ||| (s.currentState &&& keyModifierCapsLock)
      K.mapItems [keyItem] keyItem group desired overrideModifiers isAutoRepeat s

/-- A character: the best way to synthesize it. -/
def mapCharacterKey (id : KeyID) (group : ℕ) (desired : KeyModifierMask) (isAutoRepeat : Bool)
    (s : Synthesis) : Option KeyItem × Synthesis :=
  match K.keyIDMap[id]? with
  | none => (none, s)
  | some table =>
    match K.characterEntry table group desired with
    | none => (none, s)
    | some items => K.mapItems items.1 items.back group desired 0 isAutoRepeat s

/-- A modifier is synthesized like a character. -/
def mapModifierKey (id : KeyID) (group : ℕ) (desired : KeyModifierMask) (isAutoRepeat : Bool)
    (s : Synthesis) : Option KeyItem × Synthesis :=
  K.mapCharacterKey id group desired isAutoRepeat s

/-- Modifiers are set or cleared. -/
def mapModifierChange (group : ℕ) (required sensitive : KeyModifierMask) (s : Synthesis) :
    Option KeyItem × Synthesis :=
  match K.keysForModifierState 0 group required sensitive 0 s with
  | (false, s') => (none, s')
  | (true, s') => (some modifierKeyItem, s')

/-- The keystrokes of a key that is pressed, or repeated. It returns the item that is pressed,
nothing if the key cannot be mapped. -/
def mapKey (id : KeyID) (group : ℕ) (desired : KeyModifierMask) (isAutoRepeat : Bool)
    (s : Synthesis) : Option KeyItem × Synthesis :=
  if id = keyNextGroup then
    (none, { s with keystrokes := s.keystrokes ++ [.group 1 false false] })
  else if id = keyPrevGroup then
    (none, { s with keystrokes := s.keystrokes ++ [.group (-1) false false] })
  else if id ∈ modifierIDs then K.mapModifierKey id group desired isAutoRepeat s
  else if id = keySetModifiers then K.mapModifierChange group desired desired s
  else if id = keyClearModifiers then
    K.mapModifierChange group (s.currentState &&& ~~~desired) desired s
  else if isCommand desired then K.mapCommandKey id group desired isAutoRepeat s
  else K.mapCharacterKey id group desired isAutoRepeat s

end Mapping

/-! ### Buttons that are down -/

/-- A keystroke presses or releases its button. -/
def Keystroke.apply (down : Finset KeyButton) : Keystroke → Finset KeyButton
  | .button b press _ _ => if press then insert b down else down.erase b
  | .group .. => down

/-- The buttons that are down after some keystrokes. -/
def replay (down : Finset KeyButton) (keystrokes : List Keystroke) : Finset KeyButton :=
  keystrokes.foldl Keystroke.apply down

variable {K : KeyMap} {down : Finset KeyButton} {item : KeyItem} {s : Synthesis}
variable {b button : KeyButton} {client : ℕ} {isRepeat : Bool}

@[simp]
theorem replay_append {ks ks' : List Keystroke} :
    replay down (ks ++ ks') = replay (replay down ks) ks' :=
  List.foldl_append

@[simp]
theorem replay_group {g : ℤ} {absolute restore : Bool} :
    replay down [.group g absolute restore] = down := rfl

theorem mem_replay_press :
    b ∈ replay down [.button button true isRepeat client] ↔ b = button ∨ b ∈ down :=
  Finset.mem_insert

theorem mem_replay_release :
    b ∈ replay down [.button button false isRepeat client] ↔ b ≠ button ∧ b ∈ down :=
  Finset.mem_erase

theorem mem_replay_click :
    b ∈ replay down [.button button true false client, .button button false false client] ↔
      b ≠ button ∧ b ∈ down := by
  change b ∈ replay (replay down [.button button true false client])
    [.button button false false client] ↔ _
  rw [mem_replay_release, mem_replay_press]
  exact ⟨fun h => ⟨h.1, h.2.resolve_left h.1⟩, fun h => ⟨h.1, .inr h.2⟩⟩

theorem mem_replay_autorepeat :
    b ∈ replay down [.button button false true client, .button button true true client] ↔
      b = button ∨ b ∈ down := by
  change b ∈ replay (replay down [.button button false true client])
    [.button button true true client] ↔ _
  rw [mem_replay_press, mem_replay_release]
  exact or_congr_right' fun hne => ⟨fun h => h.2, fun h => ⟨hne, h⟩⟩

theorem mem_replay_releases {items : List KeyItem} :
    b ∈ replay down (items.map fun k => .button k.button false false k.client) ↔
      (∀ k ∈ items, k.button ≠ b) ∧ b ∈ down := by
  induction items generalizing down with
  | nil => exact ⟨fun h => ⟨fun k hk => absurd hk List.not_mem_nil, h⟩, fun h => h.2⟩
  | cons k items ih =>
    have hcons : replay down ((k :: items).map fun k => .button k.button false false k.client) =
        replay (replay down [.button k.button false false k.client])
          (items.map fun k => .button k.button false false k.client) := rfl
    rw [hcons, ih, mem_replay_release, List.forall_mem_cons]
    exact ⟨fun h => ⟨⟨fun hk => h.2.1 hk.symm, h.1⟩, h.2.2⟩,
      fun h => ⟨h.1.2, fun hk => h.1.1 hk.symm, h.2⟩⟩

/-- The buttons that are down after what was sent. -/
def Synthesis.pressed (s : Synthesis) (down : Finset KeyButton) : Finset KeyButton :=
  replay down s.keystrokes

/-- Switching a modifier on, where no button is half-duplex. -/
theorem pressed_modify (h : item.button ∉ K.halfDuplex) :
    b ∈ (K.addKeystrokes .modify item s).pressed down ↔
      if item.lock then b ≠ item.button ∧ b ∈ s.pressed down
      else b = item.button ∨ b ∈ s.pressed down := by
  change b ∈ replay down (s.keystrokes ++ if item.lock = true ∧ item.button ∉ K.halfDuplex then _
    else _) ↔ _
  rw [replay_append]
  by_cases hlock : item.lock = true
  · rw [if_pos ⟨hlock, h⟩, if_pos hlock]
    exact mem_replay_click
  · rw [if_neg (fun hand => hlock hand.1), if_neg hlock]
    exact mem_replay_press

/-- Switching a modifier off, where no button is half-duplex: a lock is clicked, else all the keys
of the modifier are released. -/
theorem pressed_unmodify (h : item.button ∉ K.halfDuplex) :
    b ∈ (K.addKeystrokes .unmodify item s).pressed down ↔
      (if item.lock then b ≠ item.button
        else ∀ k ∈ s.activeModifiers.equalRange item.generates, k.button ≠ b) ∧
      b ∈ s.pressed down := by
  change b ∈ replay down (s.keystrokes ++ if item.lock = true then _ else _) ↔ _
  rw [replay_append]
  by_cases hlock : item.lock = true
  · rw [if_pos hlock, if_pos hlock, if_neg h]
    exact mem_replay_click
  · rw [if_neg hlock, if_neg hlock]
    exact mem_replay_releases

end KeyMap

end InputLeap
