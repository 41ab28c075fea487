import InputLeap.Keyboard.ActiveModifiers
import InputLeap.Keyboard.FakeKeys
import InputLeap.LTS.Basic
import InputLeap.Maps.Table

/-!
# The keys that the server holds down

`KeyState` presses keys for the server. It remembers the local button of each key of the server, and
how often each local button is down. The tables have a place for each button; the numbers of the
server's keys come from the network.

## Main definitions

* `KeyState` : the tables, and the modifiers that are on.
* `KeyState.fakeKeyDown`, `KeyState.fakeKeyRepeat`, `KeyState.fakeKeyUp`, `KeyState.fakeAllKeysUp` :
  the functions. They have no result when an index is outside of its table.
* `KeyState.lts` : runs of calls.

## Main results

* `KeyState.updateModifierKeyState_spec` : a change of modifiers counts their buttons anew and
  leaves everything else.
* `KeyState.exists_updateModifierKeyState` : it is inside of the tables if these buttons are.
-/

namespace InputLeap

open KeyMap

/-- `IKeyState::kNumButtons`. -/
def numButtons : ℕ := 0x200

/-- `kButtonMask`. -/
def buttonMask : KeyButton := numButtons - 1

/-- The state of the keyboard. -/
structure KeyState where
  mask : KeyModifierMask
  activeModifiers : ModifierToKeys
  keys : Table numButtons ℤ
  /-- The keys that were pressed for the server. -/
  syntheticKeys : Table numButtons ℤ
  keyClientData : Table numButtons ℕ
  /-- The local buttons of the keys of the server, 0 for a key that is not down. -/
  serverKeys : Table numButtons KeyButton

/-- What the platform answers during a call (`pollActiveGroup` and `pollActiveModifiers`). -/
structure Platform where
  activeGroup : ℕ
  activeModifiers : KeyModifierMask

namespace KeyState

/-! ### The platform's state -/

/-- The items of a key in a group that generate a modifier of the mask (`addActiveModifierCB` for
each of the keys). -/
def addActiveModifiers (K : KeyMap) (group : ℕ) (mask : KeyModifierMask) : ModifierToKeys :=
  (K.keyIDMap.toList.flatMap fun key => (key.2.getD group []).flatMap Subtype.val).foldl
    (fun m item => if item.generates &&& mask ≠ 0 then m.insert item.generates item else m) .empty

/-- The state of the keyboard as the platform has it, with some buttons down. -/
def updateKeyState (K : KeyMap) (platform : Platform) (keysDown : List KeyButton) :
    Option KeyState := do
  let keys ← keysDown.foldlM (fun (keys : Table numButtons ℤ) b => keys.write? b 1) fun _ => 0
  some
    { mask := platform.activeModifiers
      activeModifiers := addActiveModifiers K platform.activeGroup platform.activeModifiers
      keys := keys
      syntheticKeys := fun _ => 0
      keyClientData := fun _ => 0
      serverKeys := fun _ => 0 }

/-! ### Modifiers -/

/-- The buttons of modifiers, each with the first of its keys (`ButtonToKeyMap`). -/
def buttonKeys (modifiers : ModifierToKeys) : Std.TreeMap KeyButton KeyItem :=
  modifiers.entries.foldl (fun m e => m.insertIfNew e.2.button e.2) ∅

/-- The buttons of one set of modifiers that are not those of another (`set_difference`). -/
def buttonsWithout (modifiers others : ModifierToKeys) : List (KeyButton × KeyItem) :=
  (buttonKeys modifiers).toList.filter fun e => !(buttonKeys others).contains e.1

section Calls

variable (K : KeyMap) (platform : Platform) (s : KeyState)

/-- A button counts as released. -/
def clearKey (button : KeyButton) : Option KeyState := do
  let keys ← s.keys.write? button 0
  let syntheticKeys ← s.syntheticKeys.write? button 0
  some { s with keys := keys, syntheticKeys := syntheticKeys }

/-- A button counts as pressed once. -/
def setKey (button : KeyButton) (client : ℕ) : Option KeyState := do
  let keys ← s.keys.write? button 1
  let syntheticKeys ← s.syntheticKeys.write? button 1
  let keyClientData ← s.keyClientData.write? button client
  some { s with keys := keys, syntheticKeys := syntheticKeys, keyClientData := keyClientData }

/-- The buttons of modifiers that are no longer on are released, those of modifiers that are now on
are pressed, but for one button. -/
def updateModifierKeyState (button : KeyButton) (oldModifiers newModifiers : ModifierToKeys) :
    Option KeyState := do
  let s ← (buttonsWithout oldModifiers newModifiers).foldlM
    (fun s e => if e.1 ≠ button then s.clearKey e.1 else some s) s
  (buttonsWithout newModifiers oldModifiers).foldlM
    (fun s e => if e.1 ≠ button then s.setKey e.1 e.2.client else some s) s

/-! ### Keys -/

/-- A button is down once more. -/
def pressKey (button : KeyButton) : Option KeyState := do
  let keys ← s.keys.modify? button (· + 1)
  let syntheticKeys ← s.syntheticKeys.modify? button (· + 1)
  some { s with keys := keys, syntheticKeys := syntheticKeys }

/-- A button is down once less. -/
def releaseKey (button : KeyButton) : Option KeyState := do
  let keys ← s.keys.modify? button (· - 1)
  let syntheticKeys ← s.syntheticKeys.modify? button (· - 1)
  some { s with keys := keys, syntheticKeys := syntheticKeys }

/-- A key of the server is down on a button ("note keys down"). -/
def noteKeyDown (serverID localID : KeyButton) (client : ℕ) : Option KeyState := do
  let s ← s.pressKey localID
  let keyClientData ← s.keyClientData.write? localID client
  let serverKeys ← s.serverKeys.write? serverID localID
  some { s with keyClientData := keyClientData, serverKeys := serverKeys }

/-- `isIgnoredKey`: the toggle keys. -/
def isIgnoredKey (id : KeyID) : Bool := id ∈ [0xefe5, 0xef7f, 0xef14]

/-- `mapKey` with the modifiers of the state: the key, the state after it, and the keystrokes. -/
def mapKey (id : KeyID) (mask : KeyModifierMask) (isAutoRepeat : Bool) :
    Option KeyItem × KeyState × List Keystroke :=
  let (keyItem, mapped) :=
    K.mapKey id platform.activeGroup mask isAutoRepeat ⟨s.activeModifiers, s.mask, []⟩
  (keyItem, { s with mask := mapped.currentState, activeModifiers := mapped.activeModifiers },
    mapped.keystrokes)

/-- The first keystroke of a button becomes one of another button. -/
def replaceButton (button other : KeyButton) : List Keystroke → List Keystroke
  | [] => []
  | .button b press isRepeat client :: keys =>
    if b = button then .button other press isRepeat client :: keys
    else .button b press isRepeat client :: replaceButton button other keys
  | k :: keys => k :: replaceButton button other keys

/-- A key repeats: the state and what is sent, and whether the key was down and can be mapped. -/
def fakeKeyRepeat (id : KeyID) (mask : KeyModifierMask) (count : ℤ) (serverID : KeyButton) :
    Option (Bool × KeyState × List Keystroke) := do
  let serverID := serverID &&& buttonMask
  let oldLocalID ← s.serverKeys.read? serverID
  if oldLocalID = 0 then some (false, s, [])
  else
    let (keyItem, mapped, keys) := s.mapKey K platform id mask true
    match keyItem with
    | none => some (false, mapped, [])
    | some keyItem =>
      let localID := keyItem.button &&& buttonMask
      if localID = 0 then some (false, mapped, [])
      else
        let sent (keys : List Keystroke) := fakeKeys keys (count % 2 ^ 32).toNat
        if localID = oldLocalID then some (true, mapped, sent keys)
        else
          let released ← mapped.releaseKey oldLocalID
          let updated ←
            released.updateModifierKeyState localID s.activeModifiers mapped.activeModifiers
          let noted ← updated.noteKeyDown serverID localID keyItem.client
          some (true, noted, sent (replaceButton localID oldLocalID keys))

/-- A key is pressed: the state and what is sent. A key that cannot be mapped is left to
`fakeMediaKey`, which does not use the tables. -/
def fakeKeyDown (id : KeyID) (mask : KeyModifierMask) (serverID : KeyButton) :
    Option (KeyState × List Keystroke) := do
  let serverID := serverID &&& buttonMask
  if (← s.serverKeys.read? serverID) ≠ 0 then
    -- probably a repeat that is reported as a press
    let (_, s, sent) ← s.fakeKeyRepeat K platform id mask 1 serverID
    some (s, sent)
  else if isIgnoredKey id then some (s, [])
  else
    let (keyItem, mapped, keys) := s.mapKey K platform id mask false
    match keyItem with
    | none => some (mapped, [])
    | some keyItem =>
      let localID := keyItem.button &&& buttonMask
      let updated ← mapped.updateModifierKeyState localID s.activeModifiers mapped.activeModifiers
      let noted ←
        if localID ≠ 0 then updated.noteKeyDown serverID localID keyItem.client else some updated
      some (noted, fakeKeys keys 1)

/-- The modifiers that a button no longer holds. -/
def dropModifiers (button : KeyButton) (modifiers : ModifierToKeys) (mask : KeyModifierMask) :
    ModifierToKeys × KeyModifierMask :=
  modifiers.entries.foldl (fun (active, mask) e =>
    if e.2.button = button ∧ e.2.lock = false then
      let active := active.eraseFirst e.1 fun k => k.button = button ∧ k.lock = false
      -- the modifier stays on while another of its keys is down
      (active, if active.equalRange e.1 = [] then mask &&& ~~~e.1 else mask)
    else (active, mask)) (modifiers, mask)

/-- A key is released: the state and what is sent, and whether the key was down. -/
def fakeKeyUp (serverID : KeyButton) : Option (Bool × KeyState × List Keystroke) := do
  let localID ← s.serverKeys.read? (serverID &&& buttonMask)
  if localID = 0 then some (false, s, [])
  else
    let client ← s.keyClientData.read? localID
    let released ← s.releaseKey localID
    -- the number of the key is not masked here
    let serverKeys ← released.serverKeys.write? serverID 0
    let (activeModifiers, mask) := dropModifiers localID s.activeModifiers s.mask
    some (true,
      { released with
        serverKeys := serverKeys, activeModifiers := activeModifiers, mask := mask },
      fakeKeys [.button localID false false client] 1)

/-- A button that was pressed for the server is released. -/
def fakeButtonUp (before : KeyState × List Keystroke) (button : KeyButton) :
    Option (KeyState × List Keystroke) := do
  let (s, keys) := before
  if 0 < (← s.syntheticKeys.read? button) then
    let client ← s.keyClientData.read? button
    let s ← s.clearKey button
    some (s, keys ++ [.button button false false client])
  else some (s, keys)

/-- All keys are released: the state and what is sent. -/
def fakeAllKeysUp : Option (KeyState × List Keystroke) := do
  let (s, keys) ← (List.range numButtons).foldlM fakeButtonUp (s, [])
  some
    ({ s with
        serverKeys := fun _ => 0
        activeModifiers := .empty
        mask := platform.activeModifiers },
      fakeKeys keys 1)

end Calls

/-! ### Runs -/

/-- A call, with the answers of the platform. -/
inductive Call
  | fakeKeyDown (platform : Platform) (id : KeyID) (mask : KeyModifierMask) (serverID : KeyButton)
  | fakeKeyRepeat (platform : Platform) (id : KeyID) (mask : KeyModifierMask) (count : ℤ)
    (serverID : KeyButton)
  | fakeKeyUp (serverID : KeyButton)
  | fakeAllKeysUp (platform : Platform)

/-- The state after a call, if all indices are inside of the tables. -/
def call (K : KeyMap) (s : KeyState) : Call → Option KeyState
  | .fakeKeyDown platform id mask serverID =>
    (s.fakeKeyDown K platform id mask serverID).map Prod.fst
  | .fakeKeyRepeat platform id mask count serverID =>
    (s.fakeKeyRepeat K platform id mask count serverID).map fun r => r.2.1
  | .fakeKeyUp serverID => (s.fakeKeyUp serverID).map fun r => r.2.1
  | .fakeAllKeysUp platform => (s.fakeAllKeysUp platform).map Prod.fst

/-- The runs of calls after the state was taken from the platform. -/
def lts (K : KeyMap) : LTS KeyState Call where
  init s := ∃ platform keysDown, updateKeyState K platform keysDown = some s
  step s c := s.call K c

/-! ### Changes of modifiers -/

variable {K : KeyMap} {P : KeyItem → Prop} {s s' : KeyState} {item : KeyItem}
variable {modifiers others oldModifiers newModifiers : ModifierToKeys} {button : KeyButton}
variable {e : KeyButton × KeyItem} {client : ℕ}

/-- The buttons of modifiers are those of their keys. -/
theorem mem_of_buttonKeys (h : (buttonKeys modifiers)[button]? = some item) :
    item.button = button ∧ ∃ e ∈ modifiers, e.2 = item := by
  have hinv : ∀ (entries : List (KeyModifierMask × KeyItem)) (m : Std.TreeMap KeyButton KeyItem),
      (∀ e ∈ entries, e ∈ modifiers) →
      (∀ b item, m[b]? = some item → item.button = b ∧ ∃ e ∈ modifiers, e.2 = item) →
      ∀ b item, (entries.foldl (fun m e => m.insertIfNew e.2.button e.2) m)[b]? = some item →
        item.button = b ∧ ∃ e ∈ modifiers, e.2 = item := by
    intro entries
    induction entries with
    | nil => exact fun _ _ hm => hm
    | cons e entries ih =>
      intro m hentries hm
      obtain ⟨he, hentries⟩ := List.forall_mem_cons.1 hentries
      refine ih _ hentries fun b item hitem => ?_
      rw [Std.TreeMap.getElem?_insertIfNew] at hitem
      split_ifs at hitem with hnew
      · obtain rfl := Option.some.inj hitem
        exact ⟨Std.LawfulEqCmp.eq_of_compare hnew.1, e, he, rfl⟩
      · exact hm b item hitem
  refine hinv modifiers.entries ∅ (fun _ he => he) (fun b item hitem => ?_) button item h
  simp at hitem

theorem mem_of_buttonsWithout (h : e ∈ buttonsWithout modifiers others) :
    e.2.button = e.1 ∧ ∃ e' ∈ modifiers, e'.2 = e.2 :=
  mem_of_buttonKeys (Std.TreeMap.mem_toList_iff_getElem?_eq_some.1 (List.mem_filter.1 h).1)

/-- What holds of active keys holds of those on the buttons that changed. -/
theorem of_buttonsWithout (hall : AllActive P modifiers) (h : e ∈ buttonsWithout modifiers others) :
    e.2.button = e.1 ∧ P e.2 := by
  obtain ⟨hbutton, e', he', heq⟩ := mem_of_buttonsWithout h
  exact ⟨hbutton, heq ▸ hall e' he'⟩

/-- All is as before but for the counters of some buttons. -/
structure SameBut (B : Fin numButtons → Prop) (s s' : KeyState) : Prop where
  mask : s'.mask = s.mask
  activeModifiers : s'.activeModifiers = s.activeModifiers
  serverKeys : s'.serverKeys = s.serverKeys
  syntheticKeys : ∀ b, ¬B b → s'.syntheticKeys b = s.syntheticKeys b

namespace SameBut

variable {B : Fin numButtons → Prop}

theorem refl (B : Fin numButtons → Prop) (s : KeyState) : SameBut B s s :=
  ⟨rfl, rfl, rfl, fun _ _ => rfl⟩

theorem trans {s'' : KeyState} (h : SameBut B s s') (h' : SameBut B s' s'') : SameBut B s s'' :=
  ⟨h'.mask.trans h.mask, h'.activeModifiers.trans h.activeModifiers,
    h'.serverKeys.trans h.serverKeys,
    fun b hb => (h'.syntheticKeys b hb).trans (h.syntheticKeys b hb)⟩

/-- The counter at a place is written. -/
theorem of_update {keys : Table numButtons ℤ} {keyClientData : Table numButtons ℕ}
    (hB : ∀ b : Fin numButtons, button = b → B b) {hlt : button < numButtons} {v : ℤ} :
    SameBut B s { s with
      keys := keys
      syntheticKeys := Function.update s.syntheticKeys ⟨button, hlt⟩ v
      keyClientData := keyClientData } := by
  refine ⟨rfl, rfl, rfl, fun b hb => ?_⟩
  refine Function.update_of_ne (fun heq => ?_) ..
  subst heq
  exact hb (hB _ rfl)

theorem clearKey (h : s.clearKey button = some s')
    (hB : ∀ b : Fin numButtons, button = b → B b) : SameBut B s s' := by
  obtain ⟨keys, -, h⟩ := Option.bind_eq_some_iff.1 h
  obtain ⟨syntheticKeys, hwrite, h⟩ := Option.bind_eq_some_iff.1 h
  obtain rfl := Option.some.inj h
  obtain ⟨hlt, rfl⟩ := Table.write?_eq_some_iff.1 hwrite
  exact of_update hB

theorem setKey (h : s.setKey button client = some s')
    (hB : ∀ b : Fin numButtons, button = b → B b) : SameBut B s s' := by
  obtain ⟨keys, -, h⟩ := Option.bind_eq_some_iff.1 h
  obtain ⟨syntheticKeys, hwrite, h⟩ := Option.bind_eq_some_iff.1 h
  obtain ⟨keyClientData, -, h⟩ := Option.bind_eq_some_iff.1 h
  obtain rfl := Option.some.inj h
  obtain ⟨hlt, rfl⟩ := Table.write?_eq_some_iff.1 hwrite
  exact of_update hB

end SameBut

/-- A button on which there is an active key. -/
def UsedBy (oldModifiers newModifiers : ModifierToKeys) (b : Fin numButtons) : Prop :=
  ¬(AllActive (fun item => item.button ≠ b) oldModifiers ∧
    AllActive (fun item => item.button ≠ b) newModifiers)

/-- **A change of modifiers** counts the buttons of modifiers anew, and nothing else. -/
theorem updateModifierKeyState_spec
    (h : s.updateModifierKeyState button oldModifiers newModifiers = some s') :
    SameBut (UsedBy oldModifiers newModifiers) s s' := by
  obtain ⟨s₁, hs₁, hs'⟩ := Option.bind_eq_some_iff.1 h
  refine SameBut.trans (show SameBut _ s s₁ from ?_) ?_
  · refine Table.foldlM_induction (SameBut.refl _) (fun _ _ _ => SameBut.trans)
      (fun e he s s' hturn => ?_) hs₁
    split_ifs at hturn
    · refine SameBut.clearKey hturn fun b hb hnot => ?_
      obtain ⟨hbutton, hne⟩ := of_buttonsWithout hnot.1 he
      exact hne (hbutton.trans hb)
    · exact Option.some.inj hturn ▸ SameBut.refl _ s
  · refine Table.foldlM_induction (SameBut.refl _) (fun _ _ _ => SameBut.trans)
      (fun e he s s' hturn => ?_) hs'
    split_ifs at hturn
    · refine SameBut.setKey hturn fun b hb hnot => ?_
      obtain ⟨hbutton, hne⟩ := of_buttonsWithout hnot.2 he
      exact hne (hbutton.trans hb)
    · exact Option.some.inj hturn ▸ SameBut.refl _ s

theorem exists_clearKey (h : button < numButtons) (s : KeyState) :
    ∃ s', s.clearKey button = some s' := by
  simp [clearKey, Table.write?_of_lt h]

theorem exists_setKey (h : button < numButtons) (s : KeyState) (client : ℕ) :
    ∃ s', s.setKey button client = some s' := by
  simp [setKey, Table.write?_of_lt h]

/-- A change of modifiers stays inside of the tables if their buttons do. -/
theorem exists_updateModifierKeyState
    (hold : AllActive (fun item => item.button < numButtons) oldModifiers)
    (hnew : AllActive (fun item => item.button < numButtons) newModifiers) (s : KeyState)
    (button : KeyButton) :
    ∃ s', s.updateModifierKeyState button oldModifiers newModifiers = some s' := by
  have hclear : ∀ e ∈ buttonsWithout oldModifiers newModifiers, ∀ s : KeyState, ∃ s',
      (if e.1 ≠ button then s.clearKey e.1 else some s) = some s' := by
    intro e he s
    obtain ⟨hbutton, hlt⟩ := of_buttonsWithout hold he
    split_ifs
    · exact exists_clearKey (hbutton ▸ hlt) s
    · exact ⟨s, rfl⟩
  have hset : ∀ e ∈ buttonsWithout newModifiers oldModifiers, ∀ s : KeyState, ∃ s',
      (if e.1 ≠ button then s.setKey e.1 e.2.client else some s) = some s' := by
    intro e he s
    obtain ⟨hbutton, hlt⟩ := of_buttonsWithout hnew he
    split_ifs
    · exact exists_setKey (hbutton ▸ hlt) s _
    · exact ⟨s, rfl⟩
  obtain ⟨s₁, hs₁⟩ := Table.exists_foldlM hclear s
  obtain ⟨s₂, hs₂⟩ := Table.exists_foldlM hset s₁
  exact ⟨s₂, Option.bind_eq_some_iff.2 ⟨s₁, hs₁, hs₂⟩⟩

end KeyState

end InputLeap
