import InputLeap.Keyboard.ServerKeys

/-!
# Runs of the keyboard

## Main definitions

* `KeyState.InTable` : the key that is released has a number in the table, or it is up.
* `KeyState.heldAfter` : the keys of the server that were pressed and not released.
* `KeyState.mappedTo` : how many keys of the server are on a button.

## Main results

* `KeyState.fakeKeyUp_clears` : while all released keys have numbers in the table, no index is
  outside of a table, and a key that was released stays up until it is pressed.
* `KeyState.syntheticKeys_eq_mappedTo` : the counter of a button that no modifier uses is the number
  of keys of the server on it.
-/

namespace InputLeap

namespace KeyState

open KeyMap

variable {K : KeyMap} {P : KeyItem → Prop} {platform : Platform} {s s' : KeyState} {c : Call}
variable {k b : Fin numButtons} {new : KeyButton} {keysDown : List KeyButton} {cs : List Call}
variable {held : Finset (Fin numButtons)}

/-! ### The state at the start -/

theorem allActive_addActiveModifiers {group : ℕ} {mask : KeyModifierMask} (hK : K.ForModifiers P) :
    AllActive P (addActiveModifiers K group mask) := by
  have hinv : ∀ (items : List KeyItem) (modifiers : ModifierToKeys),
      (∀ item ∈ items, item ∈ K.keyItems) → AllActive P modifiers →
      AllActive P (items.foldl (fun m item =>
        if item.generates &&& mask ≠ 0 then m.insert item.generates item else m) modifiers) := by
    intro items
    induction items with
    | nil => exact fun _ _ hm => hm
    | cons item items ih =>
      intro modifiers hitems hm
      obtain ⟨hitem, hitems⟩ := List.forall_mem_cons.1 hitems
      refine ih _ hitems ?_
      dsimp only
      split_ifs with hgen
      · refine hm.insert (hK item hitem fun hzero => hgen ?_)
        rw [hzero]
        exact BitVec.zero_and
      · exact hm
  refine hinv _ _ (fun item hitem => ?_) allActive_empty
  obtain ⟨key, hkey, hitem⟩ := List.mem_flatMap.1 hitem
  obtain ⟨entry, hentry, hitem⟩ := List.mem_flatMap.1 hitem
  exact List.mem_flatMap.2 ⟨key, hkey,
    List.mem_flatMap.2 ⟨entry, mem_flatten_of_mem_getD hentry, hitem⟩⟩

/-- At the start no key of the server is down. -/
theorem updateKeyState_spec (h : updateKeyState K platform keysDown = some s) :
    s.serverKeys = (fun _ => 0) ∧ s.syntheticKeys = (fun _ => 0) ∧
      ∀ P, K.ForModifiers P → AllActive P s.activeModifiers := by
  obtain ⟨keys, -, h⟩ := Option.bind_eq_some_iff.1 h
  obtain rfl := Option.some.inj h
  exact ⟨rfl, rfl, fun P => allActive_addActiveModifiers⟩

/-! ### One call -/

/-- What a call does: a key of the server comes on another button, or all are up. -/
theorem call_spec (h : s.call K c = some s') : (∃ k new, Places K k new s s') ∨
    s'.serverKeys = (fun _ => 0) ∧ s'.activeModifiers = .empty ∧
      ∀ b, s'.syntheticKeys b = min (s.syntheticKeys b) 0 := by
  cases c with
  | fakeKeyDown platform id mask serverID =>
    obtain ⟨⟨_, keys⟩, hcall, rfl⟩ := Option.map_eq_some_iff.1 h
    exact .inl ⟨_, Places.of_fakeKeyDown hcall⟩
  | fakeKeyRepeat platform id mask count serverID =>
    obtain ⟨⟨ok, _, keys⟩, hcall, rfl⟩ := Option.map_eq_some_iff.1 h
    obtain ⟨new, hplaces, -⟩ := Places.of_fakeKeyRepeat hcall
    exact .inl ⟨_, new, hplaces⟩
  | fakeKeyUp serverID =>
    obtain ⟨⟨ok, _, keys⟩, hcall, rfl⟩ := Option.map_eq_some_iff.1 h
    exact .inl ⟨_, 0, (fakeKeyUp_spec hcall).2⟩
  | fakeAllKeysUp platform =>
    obtain ⟨s₁, keys, hall, hspec⟩ := fakeAllKeysUp_spec platform s
    rw [call, hall] at h
    cases h
    exact .inr hspec

/-- The keys of the server that may be down after a call. -/
def heldAfter (held : Finset (Fin numButtons)) : Call → Finset (Fin numButtons)
  | .fakeKeyDown _ _ _ serverID => insert (slot serverID) held
  | .fakeKeyRepeat .. => held
  | .fakeKeyUp serverID => held.erase (slot serverID)
  | .fakeAllKeysUp _ => ∅

/-- A key of the server is down only if it was pressed and not released. -/
theorem mem_heldAfter (h : s.call K c = some s') (hheld : ∀ j, s.serverKeys j ≠ 0 → j ∈ held)
    (hdown : s'.serverKeys k ≠ 0) : k ∈ heldAfter held c := by
  cases c with
  | fakeKeyDown platform id mask serverID =>
    obtain ⟨⟨_, keys⟩, hcall, rfl⟩ := Option.map_eq_some_iff.1 h
    obtain ⟨new, hplaces⟩ := Places.of_fakeKeyDown hcall
    rw [hplaces.serverKeys, Function.update_apply] at hdown
    split_ifs at hdown with hk
    · exact hk ▸ Finset.mem_insert_self ..
    · exact Finset.mem_insert_of_mem (hheld k hdown)
  | fakeKeyRepeat platform id mask count serverID =>
    obtain ⟨⟨ok, _, keys⟩, hcall, rfl⟩ := Option.map_eq_some_iff.1 h
    obtain ⟨new, hplaces, hup⟩ := Places.of_fakeKeyRepeat hcall
    rw [hplaces.serverKeys, Function.update_apply] at hdown
    split_ifs at hdown with hk
    · -- a repeat does not press a key that is up
      refine hheld k ?_
      intro hzero
      exact hdown (hup (hk ▸ hzero))
    · exact hheld k hdown
  | fakeKeyUp serverID =>
    obtain ⟨⟨ok, _, keys⟩, hcall, rfl⟩ := Option.map_eq_some_iff.1 h
    have hplaces := (fakeKeyUp_spec (K := K) hcall).2
    rw [hplaces.serverKeys, Function.update_apply] at hdown
    split_ifs at hdown with hk
    · exact absurd rfl hdown
    · exact Finset.mem_erase.2 ⟨hk, hheld k hdown⟩
  | fakeAllKeysUp platform =>
    obtain ⟨s₁, keys, hall, hkeys, -⟩ := fakeAllKeysUp_spec platform s
    rw [call, hall] at h
    cases h
    rw [hkeys] at hdown
    exact absurd rfl hdown

/-! ### Keys that were released -/

/-- The key of the server at a place is pressed. -/
def Presses (k : Fin numButtons) : Call → Prop
  | .fakeKeyDown _ _ _ serverID => slot serverID = k
  | _ => False

theorem not_mem_heldAfter (hk : k ∉ held) (hpress : ¬Presses k c) : k ∉ heldAfter held c := by
  cases c with
  | fakeKeyDown platform id mask serverID =>
    intro hmem
    rcases Finset.mem_insert.1 hmem with heq | hmem
    · exact hpress heq.symm
    · exact hk hmem
  | fakeKeyRepeat => exact hk
  | fakeKeyUp serverID =>
    intro hmem
    exact hk (Finset.mem_of_mem_erase hmem)
  | fakeAllKeysUp => exact Finset.notMem_empty k

/-- A key that is up stays up until it is pressed. -/
theorem call_stays_up (h : s.call K c = some s') (hup : s.serverKeys k = 0)
    (hpress : ¬Presses k c) : s'.serverKeys k = 0 := by
  by_contra hdown
  -- all other keys may be held
  refine not_mem_heldAfter (Finset.notMem_erase k Finset.univ) hpress (mem_heldAfter h ?_ hdown)
  intro j hj
  refine Finset.mem_erase.2 ⟨?_, Finset.mem_univ j⟩
  rintro rfl
  exact hj hup

theorem exec_stays_up (h : (lts K).exec s cs = some s') (hup : s.serverKeys k = 0)
    (hpress : ∀ c ∈ cs, ¬Presses k c) : s'.serverKeys k = 0 := by
  induction cs generalizing s with
  | nil =>
    obtain rfl := Option.some.inj h
    exact hup
  | cons c cs ih =>
    obtain ⟨s₁, hs₁, h⟩ := Option.bind_eq_some_iff.1 h
    obtain ⟨hc, hpress⟩ := List.forall_mem_cons.1 hpress
    exact ih h (call_stays_up hs₁ hup hc) hpress

/-- The key that is released has a number in the table, or it is up. -/
def InTable (s : KeyState) : Call → Prop
  | .fakeKeyUp serverID => serverID < numButtons ∨ s.serverKeys (slot serverID) = 0
  | _ => True

theorem numButtons_pos : 0 < numButtons := by decide

theorem InRange.call (hK : K.ForModifiers fun item => item.button < numButtons) (hs : InRange s)
    (h : s.call K c = some s') : InRange s' := by
  rcases call_spec h with ⟨k, new, hplaces⟩ | ⟨hkeys, hactive, -⟩
  · refine ⟨?_, hplaces.allActive _ hK hs.activeModifiers⟩
    intro j
    rw [hplaces.serverKeys, Function.update_apply]
    split_ifs
    · exact hplaces.lt (hs.serverKeys k)
    · exact hs.serverKeys j
  · refine ⟨?_, ?_⟩
    · intro k
      rw [hkeys]
      exact numButtons_pos
    · rw [hactive]
      exact allActive_empty

theorem InRange.of_reachable (hK : K.ForModifiers fun item => item.button < numButtons)
    (hs : (lts K).Reachable s) : InRange s := by
  refine hs.invariant ?_ fun s c s' hs _ hst => hs.call hK hst
  rintro s ⟨platform, keysDown, hstart⟩
  obtain ⟨hkeys, -, hactive⟩ := updateKeyState_spec hstart
  refine ⟨?_, hactive _ hK⟩
  intro k
  rw [hkeys]
  exact numButtons_pos

theorem InRange.exists_call (hK : K.ForModifiers fun item => item.button < numButtons)
    (hs : InRange s) (c : Call) : (∃ s', s.call K c = some s') ↔ InTable s c := by
  cases c with
  | fakeKeyDown platform id mask serverID =>
    obtain ⟨r, hr⟩ := hs.exists_fakeKeyDown hK
    exact iff_of_true ⟨r.1, by rw [KeyState.call, hr]; rfl⟩ trivial
  | fakeKeyRepeat platform id mask count serverID =>
    obtain ⟨r, hr⟩ := hs.exists_fakeKeyRepeat hK
    exact iff_of_true ⟨r.2.1, by rw [KeyState.call, hr]; rfl⟩ trivial
  | fakeKeyUp serverID =>
    rw [InTable, ← hs.exists_fakeKeyUp]
    constructor
    · rintro ⟨s', h⟩
      obtain ⟨r, hr, -⟩ := Option.map_eq_some_iff.1 h
      exact ⟨r, hr⟩
    · rintro ⟨r, hr⟩
      exact ⟨r.2.1, by rw [KeyState.call, hr]; rfl⟩
  | fakeAllKeysUp platform =>
    obtain ⟨s', keys, hall, -⟩ := fakeAllKeysUp_spec platform s
    exact iff_of_true ⟨s', by rw [KeyState.call, hall]; rfl⟩ trivial

/-- **Released keys stay up.** The keys that generate modifiers are on buttons of the table, and up
to now no key was released that is down and whose number is outside of the table. Then an index of
the next call is outside of a table exactly when the call releases such a key. A release frees the
place of the key and no other, and until the key is pressed again its release is refused and
changes nothing. -/
theorem fakeKeyUp_clears (hK : K.ForModifiers fun item => item.button < numButtons)
    (hs : (lts K).ReachableVia InTable s) :
    (∀ c, (∃ s', s.call K c = some s') ↔ InTable s c) ∧
    ∀ serverID ok s' keys, s.fakeKeyUp serverID = some (ok, s', keys) →
      (ok = true ↔ s.serverKeys (slot serverID) ≠ 0) ∧
      s'.serverKeys = Function.update s.serverKeys (slot serverID) 0 ∧
      ∀ cs s'', (∀ c ∈ cs, ¬Presses (slot serverID) c) → (lts K).exec s' cs = some s'' →
        s''.fakeKeyUp serverID = some (false, s'', []) := by
  refine ⟨(InRange.of_reachable hK hs.reachable).exists_call hK, ?_⟩
  intro serverID ok s' keys h
  obtain ⟨hok, hplaces⟩ := fakeKeyUp_spec (K := K) h
  refine ⟨?_, hplaces.serverKeys, ?_⟩
  · rcases hok with ⟨hup, rfl, -⟩ | ⟨hdown, rfl, -⟩
    · simp [hup]
    · simp [hdown]
  · intro cs s'' hpress hexec
    have hfree : s'.serverKeys (slot serverID) = 0 := by
      rw [hplaces.serverKeys, Function.update_self]
    have hup := exec_stays_up hexec hfree hpress
    unfold fakeKeyUp
    dsimp only [Option.bind_eq_bind]
    rw [read?_slot, Option.bind_some, if_pos hup]

/-- The keyboard with Compose, a and e, on which nothing is down. -/
def composeStart : KeyState :=
  { mask := 0
    activeModifiers := addActiveModifiers composeKeys 0 0
    keys := fun _ => 0
    syntheticKeys := fun _ => 0
    keyClientData := fun _ => 0
    serverKeys := fun _ => 0 }

/-- The server presses a, its key 5. -/
def pressA : Call := .fakeKeyDown ⟨0, 0⟩ 0x61 0 5

theorem composeStart_init : (lts composeKeys).init composeStart := ⟨⟨0, 0⟩, [], rfl⟩

theorem composeKeys_forModifiers (P : KeyItem → Prop) : composeKeys.ForModifiers P := by
  have hnone : ∀ item ∈ composeKeys.keyItems, item.generates = 0 := by decide +kernel
  intro item hitem hgen
  exact absurd (hnone item hitem) hgen

theorem exec_pressA : ∃ s, (lts composeKeys).exec composeStart [pressA] = some s ∧
    s.serverKeys (slot 5) = 38 := by
  have hkey : ((lts composeKeys).exec composeStart [pressA]).map
      (fun s => s.serverKeys (slot 5)) = some 38 := by decide +kernel
  exact Option.map_eq_some_iff.1 hkey

theorem fakeKeyUp_clears_pressA : ∃ s, (lts composeKeys).exec composeStart [pressA] = some s ∧
    (∃ s', s.call composeKeys (.fakeKeyUp 5) = some s') ∧
    ¬∃ s', s.call composeKeys (.fakeKeyUp 0x205) = some s' := by
  obtain ⟨s, hs, hkey⟩ := exec_pressA
  have hclears := fakeKeyUp_clears (composeKeys_forModifiers _)
    (LTS.ReachableVia.of_exec (.init composeStart_init)
      (LTS.admits_of_forall (by simp [pressA, InTable]) _) hs)
  refine ⟨s, hs, (hclears.1 _).2 (.inl (by decide)), ?_⟩
  rw [hclears.1]
  rintro (hlt | hup)
  · exact absurd hlt (by decide)
  · have hslot : slot 0x205 = slot 5 := by decide
    rw [hslot, hkey] at hup
    exact absurd hup (by decide)

theorem not_fakeKeyUp_inside : ¬∀ (K : KeyMap) (s : KeyState),
    K.ForModifiers (fun item => item.button < numButtons) → (lts K).Reachable s →
      ∀ serverID < 2 ^ 16, ∃ r, s.fakeKeyUp serverID = some r := by
  intro h
  obtain ⟨s, hs, hkey⟩ := exec_pressA
  obtain ⟨r, hr⟩ := h composeKeys s (composeKeys_forModifiers _)
    (LTS.Reachable.of_exec composeStart_init hs) 0x205 (by decide)
  rcases (fakeKeyUp_spec (K := composeKeys) hr).1 with ⟨hup, -⟩ | ⟨-, -, hlt⟩
  · have hslot : slot 0x205 = slot 5 := by decide
    rw [hslot, hkey] at hup
    exact absurd hup (by decide)
  · exact absurd hlt (by decide)

/-! ### Counters -/

/-- How many keys of the server are on a button, none if it is no button. -/
def mappedTo (s : KeyState) (b : Fin numButtons) : ℕ :=
  (Finset.univ.filter fun k => s.serverKeys k ≠ 0 ∧ s.serverKeys k = b).card

theorem mappedTo_eq_zero (h : ∀ k, s.serverKeys k = 0) : s.mappedTo b = 0 := by
  rw [mappedTo, Finset.card_eq_zero, Finset.filter_eq_empty_iff]
  intro k _ hk
  exact hk.1 (h k)

theorem mappedTo_update (h : s'.serverKeys = Function.update s.serverKeys k new) :
    (s'.mappedTo b : ℤ) = s.mappedTo b - hit (s.serverKeys k) b + hit new b := by
  by_cases hb : (b : KeyButton) = 0
  · -- button 0 stands for no button, and nothing is counted on it
    have hnone (s : KeyState) : s.mappedTo b = 0 := by
      rw [mappedTo, Finset.card_eq_zero, Finset.filter_eq_empty_iff]
      intro k _ hk
      exact hk.1 (hk.2.trans hb)
    have hhit (button : KeyButton) : hit button b = 0 := if_neg fun h => h.1 (h.2.trans hb)
    rw [hnone, hnone, hhit, hhit]
    rfl
  · have hcount (s : KeyState) : s.mappedTo b = s.serverKeys.count (b : KeyButton) := by
      refine congrArg Finset.card (Finset.filter_congr fun k _ => ?_)
      exact ⟨fun h => h.2, fun h => ⟨h ▸ hb, h⟩⟩
    have hhit (button : KeyButton) : hit button b = if button = b then 1 else 0 := by
      by_cases hbutton : button = b
      · rw [hbutton, hit_of_ne_zero hb]
      · rw [hit, if_neg fun h => hbutton h.2, if_neg hbutton]
    rw [hcount, hcount, h, Table.count_update, hhit, hhit]

/-- What the calls keep: no active modifier is on the button, its counter is that of the keys of the
server on it, and those that are down are held. -/
structure Counted (b : Fin numButtons) (held : Finset (Fin numButtons)) (s : KeyState) : Prop where
  activeModifiers : AllActive (fun item => item.button ≠ b) s.activeModifiers
  syntheticKeys : s.syntheticKeys b = s.mappedTo b
  held : ∀ k, s.serverKeys k ≠ 0 → k ∈ held

theorem Counted.call (hK : K.ForModifiers fun item => item.button ≠ b) (hs : Counted b held s)
    (h : s.call K c = some s') : Counted b (heldAfter held c) s' := by
  have hheld : ∀ k, s'.serverKeys k ≠ 0 → k ∈ heldAfter held c := by
    intro k
    exact mem_heldAfter h hs.held
  rcases call_spec h with ⟨k, new, hplaces⟩ | ⟨hkeys, hactive, hcounter⟩
  · -- a key comes on another button
    refine ⟨hplaces.allActive _ hK hs.activeModifiers, ?_, hheld⟩
    rw [hplaces.syntheticKeys b hK hs.activeModifiers, hs.syntheticKeys,
      mappedTo_update hplaces.serverKeys]
  · -- all keys are up, and a counter that was not negative is 0
    refine ⟨?_, ?_, hheld⟩
    · rw [hactive]
      exact allActive_empty
    · rw [hcounter, hs.syntheticKeys, min_eq_right (Int.natCast_nonneg _),
        mappedTo_eq_zero (congrFun hkeys), Nat.cast_zero]

theorem Counted.exec (hK : K.ForModifiers fun item => item.button ≠ b) (hs : Counted b held s)
    (h : (lts K).exec s cs = some s') : Counted b (cs.foldl heldAfter held) s' := by
  induction cs generalizing s held with
  | nil =>
    obtain rfl := Option.some.inj h
    exact hs
  | cons c cs ih =>
    obtain ⟨s₁, hs₁, h⟩ := Option.bind_eq_some_iff.1 h
    exact ih (hs.call hK hs₁) h

/-- **The counters are those of the held keys.** After any calls, the counter of a button on which
there is no key that generates a modifier is the number of keys of the server on the button. It is
not negative, and it is 0 if all keys that were pressed were released. -/
theorem syntheticKeys_eq_mappedTo (hK : K.ForModifiers fun item => item.button ≠ b)
    (hinit : (lts K).init s) (h : (lts K).exec s cs = some s') :
    s'.syntheticKeys b = s'.mappedTo b ∧ 0 ≤ s'.syntheticKeys b ∧
      (cs.foldl heldAfter ∅ = ∅ → s'.syntheticKeys b = 0) := by
  obtain ⟨platform, keysDown, hstart⟩ := hinit
  obtain ⟨hkeys, hcounters, hactive⟩ := updateKeyState_spec hstart
  have hs : Counted b ∅ s := by
    refine ⟨hactive _ hK, ?_, ?_⟩
    · rw [hcounters, mappedTo_eq_zero (congrFun hkeys), Nat.cast_zero]
    · intro k hk
      exact absurd (congrFun hkeys k) hk
  have hs' := hs.exec hK h
  refine ⟨hs'.syntheticKeys, ?_, ?_⟩
  · rw [hs'.syntheticKeys]
    exact Int.natCast_nonneg _
  · intro hnone
    have hup : ∀ k, s'.serverKeys k = 0 := by
      intro k
      by_contra hk
      exact Finset.notMem_empty k (hnone ▸ hs'.held k hk)
    rw [hs'.syntheticKeys, mappedTo_eq_zero hup, Nat.cast_zero]

theorem syntheticKeys_eq_mappedTo_pressA : ∃ s, (lts composeKeys).exec composeStart
    [pressA, .fakeKeyDown ⟨0, 0⟩ 0x61 0 6, .fakeKeyUp 5] = some s ∧
      s.syntheticKeys (slot 38) = 1 := by
  have hmapped : ((lts composeKeys).exec composeStart
      [pressA, .fakeKeyDown ⟨0, 0⟩ 0x61 0 6, .fakeKeyUp 5]).map (fun s => s.mappedTo (slot 38)) =
        some 1 := by
    decide +kernel
  obtain ⟨s, hs, hone⟩ := Option.map_eq_some_iff.1 hmapped
  refine ⟨s, hs, ?_⟩
  rw [(syntheticKeys_eq_mappedTo (composeKeys_forModifiers _) composeStart_init hs).1, hone,
    Nat.cast_one]

end KeyState

end InputLeap
