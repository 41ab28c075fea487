import InputLeap.Keyboard.KeyState

/-!
# What calls do to the server's keys

Each call changes the button of one key of the server, or releases all.

## Main definitions

* `KeyState.slot` : the place of a key of the server.
* `KeyState.Places` : the key of the server at a place is now on another button, and the counters of
  the buttons that no modifier uses say so.
* `KeyState.InRange` : the buttons of the state are in the tables.

## Main results

* `KeyState.Places.of_fakeKeyDown`, `KeyState.Places.of_fakeKeyRepeat`, `KeyState.fakeKeyUp_spec`,
  `KeyState.fakeAllKeysUp_spec` : what the calls do.
* `KeyState.InRange.exists_fakeKeyDown`, `KeyState.InRange.exists_fakeKeyRepeat`,
  `KeyState.InRange.exists_fakeKeyUp` : which calls stay inside of the tables.
-/

namespace InputLeap

namespace KeyState

open KeyMap

variable {K : KeyMap} {P : KeyItem → Prop} {platform : Platform} {s s' s'' : KeyState}
variable {id : KeyID} {mask : KeyModifierMask} {count : ℤ} {serverID button localID new : KeyButton}
variable {k b : Fin numButtons} {modifiers : ModifierToKeys} {keys : List Keystroke} {client : ℕ}
variable {isAutoRepeat ok : Bool}

/-! ### Places -/

theorem and_buttonMask_lt (button : KeyButton) : button &&& buttonMask < numButtons :=
  Nat.and_lt_two_pow (n := 9) button (by decide)

/-- The place of a key of the server. -/
def slot (serverID : KeyButton) : Fin numButtons := ⟨serverID &&& buttonMask, and_buttonMask_lt _⟩

theorem slot_of_lt (h : serverID < numButtons) : slot serverID = ⟨serverID, h⟩ :=
  Fin.ext (Nat.and_two_pow_sub_one_of_lt_two_pow (n := 9) h)

@[simp] theorem slot_and (serverID : KeyButton) : slot (serverID &&& buttonMask) = slot serverID :=
  slot_of_lt (and_buttonMask_lt serverID)

@[simp] theorem read?_slot {α : Type*} (t : Table numButtons α) :
    t.read? (serverID &&& buttonMask) = some (t (slot serverID)) :=
  Table.read?_of_lt (and_buttonMask_lt serverID)

/-! ### Steps of the calls -/

/-- One for the button of a key that is down. -/
def hit (button : KeyButton) (b : Fin numButtons) : ℤ := if button ≠ 0 ∧ button = b then 1 else 0

@[simp] theorem hit_zero : hit 0 b = 0 := if_neg fun h => h.1 rfl

theorem hit_of_ne_zero (h : button ≠ 0) : hit button b = if button = b then 1 else 0 := by
  simp [hit, h]

/-- The counter of one button is changed by one. -/
theorem update_add {t : Table numButtons ℤ} {v : ℤ} (hlt : button < numButtons) :
    Function.update t ⟨button, hlt⟩ (t ⟨button, hlt⟩ + v) b =
      t b + if button = b then v else 0 := by
  by_cases hb : button = b
  · subst hb
    simp
  · rw [if_neg hb, add_zero]
    exact Function.update_of_ne (fun heq => hb (congrArg Fin.val heq).symm) ..

theorem pressKey_spec (hbutton : button ≠ 0) (h : s.pressKey button = some s') :
    s'.serverKeys = s.serverKeys ∧ s'.activeModifiers = s.activeModifiers ∧
      ∀ b, s'.syntheticKeys b = s.syntheticKeys b + hit button b := by
  obtain ⟨keys, -, h⟩ := Option.bind_eq_some_iff.1 h
  obtain ⟨syntheticKeys, hmodify, h⟩ := Option.bind_eq_some_iff.1 h
  obtain rfl := Option.some.inj h
  obtain ⟨hlt, rfl⟩ := Table.modify?_eq_some_iff.1 hmodify
  refine ⟨rfl, rfl, fun b => ?_⟩
  rw [hit_of_ne_zero hbutton]
  exact update_add hlt

theorem releaseKey_spec (hbutton : button ≠ 0) (h : s.releaseKey button = some s') :
    s'.serverKeys = s.serverKeys ∧ s'.activeModifiers = s.activeModifiers ∧
      ∀ b, s'.syntheticKeys b = s.syntheticKeys b - hit button b := by
  obtain ⟨keys, -, h⟩ := Option.bind_eq_some_iff.1 h
  obtain ⟨syntheticKeys, hmodify, h⟩ := Option.bind_eq_some_iff.1 h
  obtain rfl := Option.some.inj h
  obtain ⟨hlt, rfl⟩ := Table.modify?_eq_some_iff.1 hmodify
  refine ⟨rfl, rfl, fun b => ?_⟩
  rw [hit_of_ne_zero hbutton]
  refine (update_add (v := -1) hlt).trans ?_
  split_ifs
  · rfl
  · rfl

theorem noteKeyDown_spec (hlocal : localID ≠ 0)
    (h : s.noteKeyDown (serverID &&& buttonMask) localID client = some s') :
    s'.serverKeys = Function.update s.serverKeys (slot serverID) localID ∧
      s'.activeModifiers = s.activeModifiers ∧
      ∀ b, s'.syntheticKeys b = s.syntheticKeys b + hit localID b := by
  obtain ⟨s₁, hs₁, h⟩ := Option.bind_eq_some_iff.1 h
  obtain ⟨keyClientData, -, h⟩ := Option.bind_eq_some_iff.1 h
  obtain ⟨serverKeys, hwrite, h⟩ := Option.bind_eq_some_iff.1 h
  obtain rfl := Option.some.inj h
  obtain ⟨hkeys, hactive, hsynthetic⟩ := pressKey_spec hlocal hs₁
  obtain ⟨-, rfl⟩ := Table.write?_eq_some_iff.1 hwrite
  exact ⟨by rw [hkeys]; rfl, hactive, hsynthetic⟩

theorem allActive_mapKey (hK : K.ForModifiers P) (h : AllActive P s.activeModifiers) :
    AllActive P (s.mapKey K platform id mask isAutoRepeat).2.1.activeModifiers :=
  AllActive.mapKey hK h

theorem allActive_dropModifiers (h : AllActive P modifiers) :
    AllActive P (dropModifiers button modifiers mask).1 := by
  unfold dropModifiers
  refine List.foldlRecOn (motive := fun s : ModifierToKeys × KeyModifierMask => AllActive P s.1)
    modifiers.entries _ h ?_
  intro before hbefore e _
  dsimp only
  split_ifs
  · exact hbefore.eraseFirst
  · exact hbefore.eraseFirst
  · exact hbefore

/-- The key of the server at a place is now on a button, 0 if it is up. -/
structure Places (K : KeyMap) (k : Fin numButtons) (new : KeyButton) (s s' : KeyState) : Prop where
  serverKeys : s'.serverKeys = Function.update s.serverKeys k new
  lt : s.serverKeys k < numButtons → new < numButtons
  allActive : ∀ P, K.ForModifiers P → AllActive P s.activeModifiers → AllActive P s'.activeModifiers
  syntheticKeys : ∀ b : Fin numButtons, K.ForModifiers (fun item => item.button ≠ b) →
    AllActive (fun item => item.button ≠ b) s.activeModifiers →
    s'.syntheticKeys b = s.syntheticKeys b - hit (s.serverKeys k) b + hit new b

namespace Places

/-- The key stays where it is. -/
theorem of_mapped (hkeys : s'.serverKeys = s.serverKeys)
    (hsynthetic : s'.syntheticKeys = s.syntheticKeys)
    (hactive : ∀ P, K.ForModifiers P → AllActive P s.activeModifiers →
      AllActive P s'.activeModifiers) : Places K k (s.serverKeys k) s s' where
  serverKeys := by rw [hkeys, Function.update_eq_self]
  lt := fun h => h
  allActive := hactive
  syntheticKeys := by
    intro b _ _
    rw [hsynthetic, sub_add_cancel]

theorem refl : Places K k (s.serverKeys k) s s := of_mapped rfl rfl fun _ _ hactive => hactive

/-- A key leaves its button, the modifiers change, and it comes on another button. -/
theorem of_moved {newModifiers : ModifierToKeys} {s₁ s₂ : KeyState}
    (hlt : new < numButtons) (hkeys : s₁.serverKeys = s.serverKeys)
    (hreleased : ∀ b, s₁.syntheticKeys b = s.syntheticKeys b - hit (s.serverKeys k) b)
    (hsame : SameBut (UsedBy s.activeModifiers newModifiers) s₁ s₂)
    (hactive : ∀ P, K.ForModifiers P → AllActive P s.activeModifiers → AllActive P newModifiers)
    (hactive' : s'.activeModifiers = newModifiers)
    (hkeys' : s'.serverKeys = Function.update s₂.serverKeys k new)
    (hpressed : ∀ b, s'.syntheticKeys b = s₂.syntheticKeys b + hit new b) :
    Places K k new s s' where
  serverKeys := by rw [hkeys', hsame.serverKeys, hkeys]
  lt := fun _ => hlt
  allActive := fun P hK hs => hactive' ▸ hactive P hK hs
  syntheticKeys := by
    intro b hK hs
    rw [hpressed, hsame.syntheticKeys b (not_not_intro ⟨hs, hactive _ hK hs⟩), hreleased]

/-- What a repeat does: the key stays where it is, or is on another button. -/
theorem of_fakeKeyRepeat
    (h : s.fakeKeyRepeat K platform id mask count serverID = some (ok, s', keys)) :
    ∃ new, Places K (slot serverID) new s s' ∧ (s.serverKeys (slot serverID) = 0 → new = 0) := by
  have hmapped : Places K (slot serverID) (s.serverKeys (slot serverID)) s
      (s.mapKey K platform id mask true).2.1 := of_mapped rfl rfl fun _ => allActive_mapKey
  unfold fakeKeyRepeat at h
  dsimp only [Option.bind_eq_bind] at h
  rw [read?_slot, Option.bind_some] at h
  by_cases hup : s.serverKeys (slot serverID) = 0
  · rw [if_pos hup] at h
    cases h
    exact ⟨_, refl, fun h => h⟩
  rw [if_neg hup] at h
  cases hkey : (s.mapKey K platform id mask true).1 with
  | none =>
    rw [hkey] at h
    cases h
    exact ⟨_, hmapped, fun h => h⟩
  | some keyItem =>
    rw [hkey] at h
    dsimp only at h
    split_ifs at h with hzero hsame
    · cases h
      exact ⟨_, hmapped, fun h => h⟩
    · cases h
      exact ⟨_, hmapped, fun h => h⟩
    · -- the key is on another button now: the old one is released before
      obtain ⟨released, hreleased, h⟩ := Option.bind_eq_some_iff.1 h
      obtain ⟨updated, hupdated, h⟩ := Option.bind_eq_some_iff.1 h
      obtain ⟨noted, hnoted, h⟩ := Option.bind_eq_some_iff.1 h
      cases h
      obtain ⟨hkeys, hactive, hcounter⟩ := releaseKey_spec hup hreleased
      obtain ⟨hkeys', hactive', hcounter'⟩ := noteKeyDown_spec hzero hnoted
      have hsame := updateModifierKeyState_spec hupdated
      refine ⟨_, of_moved (and_buttonMask_lt _) hkeys hcounter hsame (fun _ => allActive_mapKey)
        ?_ hkeys' hcounter', fun h => absurd h hup⟩
      rw [hactive', hsame.activeModifiers, hactive]

/-- What a press does: the key comes on a button, or it was down and repeats. -/
theorem of_fakeKeyDown (h : s.fakeKeyDown K platform id mask serverID = some (s', keys)) :
    ∃ new, Places K (slot serverID) new s s' := by
  unfold fakeKeyDown at h
  dsimp only [Option.bind_eq_bind] at h
  rw [read?_slot, Option.bind_some] at h
  by_cases hdown : s.serverKeys (slot serverID) ≠ 0
  · -- the key is down, so the press is a repeat
    rw [if_pos hdown] at h
    obtain ⟨⟨ok, s₁, sent⟩, hrepeat, h⟩ := Option.bind_eq_some_iff.1 h
    cases h
    obtain ⟨new, hplaces, -⟩ := of_fakeKeyRepeat hrepeat
    rw [slot_and] at hplaces
    exact ⟨new, hplaces⟩
  rw [if_neg hdown] at h
  split_ifs at h
  · cases h
    exact ⟨_, refl⟩
  cases hkey : (s.mapKey K platform id mask false).1 with
  | none =>
    rw [hkey] at h
    cases h
    exact ⟨_, of_mapped rfl rfl fun _ => allActive_mapKey⟩
  | some keyItem =>
    rw [hkey] at h
    dsimp only at h
    obtain ⟨updated, hupdated, h⟩ := Option.bind_eq_some_iff.1 h
    have hsame := updateModifierKeyState_spec hupdated
    have hkeys : (s.mapKey K platform id mask false).2.1.serverKeys = s.serverKeys := rfl
    have hcounter (b : Fin numButtons) : (s.mapKey K platform id mask false).2.1.syntheticKeys b =
        s.syntheticKeys b - hit (s.serverKeys (slot serverID)) b := by
      rw [not_not.1 hdown, hit_zero, sub_zero]
      rfl
    split_ifs at h with hlocal
    · obtain ⟨noted, hnoted, h⟩ := Option.bind_eq_some_iff.1 h
      cases h
      obtain ⟨hkeys', hactive', hcounter'⟩ := noteKeyDown_spec hlocal hnoted
      exact ⟨_, of_moved (and_buttonMask_lt _) hkeys hcounter hsame (fun _ => allActive_mapKey)
        (hactive'.trans hsame.activeModifiers) hkeys' hcounter'⟩
    · -- no button was pressed, and the key is still up
      cases h
      refine ⟨0, of_moved (by decide) hkeys hcounter hsame (fun _ => allActive_mapKey)
        hsame.activeModifiers ?_ fun b => ?_⟩
      · rw [hsame.serverKeys, ← not_not.1 hdown]
        exact (Function.update_eq_self ..).symm
      · rw [hit_zero, add_zero]

end Places

/-- What a release does: the key is up after it. It is refused, and nothing changes, if the key was
up before. -/
theorem fakeKeyUp_spec (h : s.fakeKeyUp serverID = some (ok, s', keys)) :
    (s.serverKeys (slot serverID) = 0 ∧ ok = false ∧ s' = s ∧ keys = [] ∨
      s.serverKeys (slot serverID) ≠ 0 ∧ ok = true ∧ serverID < numButtons) ∧
      Places K (slot serverID) 0 s s' := by
  unfold fakeKeyUp at h
  dsimp only [Option.bind_eq_bind] at h
  rw [read?_slot, Option.bind_some] at h
  by_cases hup : s.serverKeys (slot serverID) = 0
  · rw [if_pos hup] at h
    cases h
    exact ⟨.inl ⟨hup, rfl, rfl, rfl⟩, hup ▸ Places.refl⟩
  · rw [if_neg hup] at h
    obtain ⟨client, -, h⟩ := Option.bind_eq_some_iff.1 h
    obtain ⟨released, hreleased, h⟩ := Option.bind_eq_some_iff.1 h
    obtain ⟨serverKeys, hwrite, h⟩ := Option.bind_eq_some_iff.1 h
    cases h
    obtain ⟨hkeys, hactive, hcounter⟩ := releaseKey_spec hup hreleased
    obtain ⟨hlt, rfl⟩ := Table.write?_eq_some_iff.1 hwrite
    refine ⟨.inr ⟨hup, rfl, hlt⟩, ?_, ?_, ?_, ?_⟩
    · -- the table is written at the number itself, which is its own place
      rw [slot_of_lt hlt, ← hkeys]
    · intro _
      decide
    · intro P _ hs
      exact allActive_dropModifiers hs
    · intro b _ _
      rw [hit_zero, add_zero]
      exact hcounter b

/-! ### All keys up -/

theorem fakeButtonUp_spec (h : button < numButtons) (before : KeyState × List Keystroke) :
    ∃ after, fakeButtonUp before button = some after ∧
      after.1.syntheticKeys = Function.update before.1.syntheticKeys ⟨button, h⟩
        (min (before.1.syntheticKeys ⟨button, h⟩) 0) := by
  obtain ⟨s, keys⟩ := before
  by_cases hpos : 0 < s.syntheticKeys ⟨button, h⟩
  · rw [min_eq_right hpos.le]
    simp [fakeButtonUp, clearKey, Table.read?_of_lt h, Table.write?_of_lt h, hpos]
  · rw [min_eq_left (not_lt.1 hpos), Function.update_eq_self]
    exact ⟨(s, keys), by simp [fakeButtonUp, Table.read?_of_lt h, hpos], rfl⟩

/-- The buttons are released one after another. -/
theorem foldlM_fakeButtonUp {buttons : List KeyButton} (h : ∀ button ∈ buttons, button < numButtons)
    (before : KeyState × List Keystroke) :
    ∃ after, buttons.foldlM fakeButtonUp before = some after ∧
      ∀ b : Fin numButtons, after.1.syntheticKeys b =
        if (b : KeyButton) ∈ buttons then min (before.1.syntheticKeys b) 0
        else before.1.syntheticKeys b := by
  induction buttons generalizing before with
  | nil => exact ⟨before, rfl, fun b => rfl⟩
  | cons button buttons ih =>
    obtain ⟨hlt, h⟩ := List.forall_mem_cons.1 h
    obtain ⟨next, hnext, hcounter⟩ := fakeButtonUp_spec hlt before
    obtain ⟨after, hafter, hcounters⟩ := ih h next
    refine ⟨after, ?_, fun b => ?_⟩
    · rw [List.foldlM_cons, hnext]
      exact hafter
    · rw [hcounters, hcounter]
      by_cases hb : (b : KeyButton) = button
      · subst hb
        simp
      · rw [Function.update_of_ne fun heq => hb (congrArg Fin.val heq)]
        simp [hb]

/-- What the release of all keys does. -/
theorem fakeAllKeysUp_spec (platform : Platform) (s : KeyState) :
    ∃ s' keys, s.fakeAllKeysUp platform = some (s', keys) ∧ s'.serverKeys = (fun _ => 0) ∧
      s'.activeModifiers = .empty ∧ ∀ b, s'.syntheticKeys b = min (s.syntheticKeys b) 0 := by
  obtain ⟨⟨after, keys⟩, hafter, hcounters⟩ :=
    foldlM_fakeButtonUp (fun button (h : button ∈ List.range numButtons) => List.mem_range.1 h)
      (s, [])
  refine ⟨{ after with
      serverKeys := fun _ => 0
      activeModifiers := .empty
      mask := platform.activeModifiers }, fakeKeys keys 1, ?_, rfl, rfl, fun b => ?_⟩
  · unfold fakeAllKeysUp
    rw [hafter]
    rfl
  · exact (hcounters b).trans (if_pos (List.mem_range.2 b.isLt))

/-! ### The tables are large enough -/

/-- The buttons of the state are in the tables. -/
structure InRange (s : KeyState) : Prop where
  serverKeys : ∀ k, s.serverKeys k < numButtons
  activeModifiers : AllActive (fun item => item.button < numButtons) s.activeModifiers

theorem exists_releaseKey (h : button < numButtons) (s : KeyState) :
    ∃ s', s.releaseKey button = some s' := by
  simp [releaseKey, Table.modify?_of_lt h]

theorem exists_noteKeyDown (h : serverID < numButtons) (h' : localID < numButtons) (s : KeyState)
    (client : ℕ) : ∃ s', s.noteKeyDown serverID localID client = some s' := by
  simp [noteKeyDown, pressKey, Table.modify?_of_lt h', Table.write?_of_lt h, Table.write?_of_lt h']

variable (hK : K.ForModifiers fun item => item.button < numButtons)

include hK

theorem InRange.exists_fakeKeyRepeat (hs : InRange s) :
    ∃ r, s.fakeKeyRepeat K platform id mask count serverID = some r := by
  unfold fakeKeyRepeat
  dsimp only [Option.bind_eq_bind]
  rw [read?_slot, Option.bind_some]
  split_ifs
  · exact ⟨_, rfl⟩
  cases hkey : (s.mapKey K platform id mask true).1 with
  | none => exact ⟨_, rfl⟩
  | some keyItem =>
    dsimp only
    split_ifs
    · exact ⟨_, rfl⟩
    · exact ⟨_, rfl⟩
    · obtain ⟨released, hreleased⟩ := exists_releaseKey (hs.serverKeys (slot serverID))
        (s.mapKey K platform id mask true).2.1
      have hmapped : AllActive _ (s.mapKey K platform id mask true).2.1.activeModifiers :=
        allActive_mapKey hK hs.activeModifiers
      obtain ⟨updated, hupdated⟩ := exists_updateModifierKeyState hs.activeModifiers hmapped
        released (keyItem.button &&& buttonMask)
      obtain ⟨noted, hnoted⟩ := exists_noteKeyDown (and_buttonMask_lt serverID)
        (and_buttonMask_lt keyItem.button) updated keyItem.client
      rw [hreleased, Option.bind_some, hupdated, Option.bind_some, hnoted]
      exact ⟨_, rfl⟩

theorem InRange.exists_fakeKeyDown (hs : InRange s) :
    ∃ r, s.fakeKeyDown K platform id mask serverID = some r := by
  unfold fakeKeyDown
  dsimp only [Option.bind_eq_bind]
  rw [read?_slot, Option.bind_some]
  split_ifs
  · obtain ⟨r, hr⟩ : ∃ r, s.fakeKeyRepeat K platform id mask 1 (serverID &&& buttonMask) = some r :=
      hs.exists_fakeKeyRepeat hK
    rw [hr]
    exact ⟨_, rfl⟩
  · exact ⟨_, rfl⟩
  cases hkey : (s.mapKey K platform id mask false).1 with
  | none => exact ⟨_, rfl⟩
  | some keyItem =>
    dsimp only
    have hmapped : AllActive _ (s.mapKey K platform id mask false).2.1.activeModifiers :=
      allActive_mapKey hK hs.activeModifiers
    obtain ⟨updated, hupdated⟩ := exists_updateModifierKeyState hs.activeModifiers hmapped
      (s.mapKey K platform id mask false).2.1 (keyItem.button &&& buttonMask)
    obtain ⟨noted, hnoted⟩ := exists_noteKeyDown (and_buttonMask_lt serverID)
      (and_buttonMask_lt keyItem.button) updated keyItem.client
    rw [hupdated, Option.bind_some, hnoted]
    split_ifs
    · exact ⟨_, rfl⟩
    · exact ⟨_, rfl⟩

omit hK in
/-- A key can be released if its number is in the table, or it is not down. -/
theorem InRange.exists_fakeKeyUp (hs : InRange s) :
    (∃ r, s.fakeKeyUp serverID = some r) ↔
      serverID < numButtons ∨ s.serverKeys (slot serverID) = 0 := by
  unfold fakeKeyUp
  dsimp only [Option.bind_eq_bind]
  rw [read?_slot, Option.bind_some]
  by_cases hup : s.serverKeys (slot serverID) = 0
  · simp [hup]
  · obtain ⟨released, hreleased⟩ := exists_releaseKey (hs.serverKeys (slot serverID)) s
    have hread : ∃ client, s.keyClientData.read? (s.serverKeys (slot serverID)) = some client :=
      ⟨_, Table.read?_of_lt (hs.serverKeys (slot serverID))⟩
    obtain ⟨client, hclient⟩ := hread
    rw [if_neg hup, hclient, Option.bind_some, hreleased, Option.bind_some, Table.write?]
    split_ifs with hlt
    · simp [hlt]
    · simp [hlt, hup]

end KeyState

end InputLeap
