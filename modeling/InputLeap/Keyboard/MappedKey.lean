import InputLeap.Keyboard.RestoredModifiers

/-!
# The buttons after a key

A key that is made of several buttons, as with the Compose key, presses one after the other. Dead
keys are released at once. The others are not, and nobody releases them later: only the last one is
remembered as the button of the key.

## Main definitions

* `KeyMap.mappedItems` : the buttons for a key that is not a modifier.
* `KeyMap.Restores` : the modifiers are as before a key, and so are the buttons but for its own.
* `KeyMap.LeavesOnlyKey` : no button before the last one stays down.

## Main results

* `KeyMap.mapItems_restores` : when buttons are synthesized the modifiers are restored.
* `KeyMap.mapKey_restores` : when a key leaves the buttons as it should.
-/

namespace InputLeap

namespace KeyMap

variable {K : KeyMap} {s₀ s s' : Synthesis} {item k : KeyItem} {mask : KeyModifierMask} {bit : ℕ}
variable {b : KeyButton} {down : Finset KeyButton} {m : Mapping}
variable {items : List KeyItem}

/-! ### The buttons of the key -/

/-- Keystrokes that are not of modifiers. -/
theorem Kept.send {strokes : List Keystroke} (hplain : Plain K s₀) (hs : Kept K s₀ down m s)
    (hstrokes : ∀ j, K.IsModifier s₀ j →
      (j.button ∈ replay (s.pressed down) strokes ↔ j.button ∈ s.pressed down)) :
    Kept K s₀ down m { s with keystrokes := s.keystrokes ++ strokes } := by
  have hpressed : ∀ j, K.IsModifier s₀ j →
      (j.button ∈ Synthesis.pressed { s with keystrokes := s.keystrokes ++ strokes } down ↔
        j.button ∈ s.pressed down) := by
    intro j hj
    rw [Synthesis.pressed, replay_append]
    exact hstrokes j hj
  refine ⟨⟨hs.keyed, hs.modifier, hs.union⟩, hs.expected, fun mask => ?_⟩
  rcases hs.mods mask with ⟨hrange, hheld⟩ | ⟨bit, n, k, hmask, hheld⟩
  · exact .inl ⟨hrange, fun j hj hj' => (hpressed j hj).trans (hheld j hj hj')⟩
  · exact .inr ⟨bit, n, k, hmask, hheld.of_same hplain rfl fun j hj _ => hpressed j hj⟩

/-- The buttons that are down after an item: a dead key is released at once. -/
def pressItem (down : Finset KeyButton) (item : KeyItem) : Finset KeyButton :=
  if item.dead then down.erase item.button else insert item.button down

theorem mem_pressItem :
    b ∈ pressItem down item ↔ if b = item.button then item.dead = false else b ∈ down := by
  rw [pressItem]
  by_cases hb : b = item.button
  · cases item.dead <;> simp [hb]
  · cases item.dead <;> simp [hb]

/-- Whether a button is down after some items depends on whether it was down before. -/
theorem mem_foldl_pressItem_congr {rest : List KeyItem} {down' : Finset KeyButton}
    (h : b ∈ down ↔ b ∈ down') :
    b ∈ rest.foldl pressItem down ↔ b ∈ rest.foldl pressItem down' := by
  induction rest generalizing down down' with
  | nil => exact h
  | cons item rest ih =>
    refine ih ?_
    rw [mem_pressItem, mem_pressItem, h]

/-- The button of a key that is not a modifier is pressed, or clicked if the key is dead. -/
theorem Kept.strike (isAutoRepeat : Bool) (hplain : Plain K s₀) (hs : Kept K s₀ down m s)
    (hgen : item.generates = 0) (hnot : NotModifier K s₀ item.button) :
    let type := if item.dead then .click else if isAutoRepeat then .autorepeat else .press
    Kept K s₀ down m (K.addKeystrokes type item s) ∧
      ∀ b, b ∈ (K.addKeystrokes type item s).pressed down ↔
        b ∈ pressItem (s.pressed down) item := by
  have hstroke : ∀ strokes, (∀ b, b ∈ replay (s.pressed down) strokes ↔
        b ∈ pressItem (s.pressed down) item) →
      Kept K s₀ down m { s with keystrokes := s.keystrokes ++ strokes } ∧
        ∀ b, b ∈ Synthesis.pressed { s with keystrokes := s.keystrokes ++ strokes } down ↔
          b ∈ pressItem (s.pressed down) item := by
    intro strokes hstrokes
    refine ⟨hs.send hplain fun j hj => ?_, fun b => ?_⟩
    · rw [hstrokes, mem_pressItem, if_neg (hnot j hj)]
    · rw [Synthesis.pressed, replay_append]
      exact hstrokes b
  intro type
  by_cases hdead : item.dead = true
  · have htype : type = .click := if_pos hdead
    rw [htype]
    refine hstroke [_, _] fun b => ?_
    rw [mem_replay_click, pressItem, if_pos hdead, Finset.mem_erase]
  · have hpress : pressItem (s.pressed down) item = insert item.button (s.pressed down) :=
      if_neg hdead
    cases isAutoRepeat with
    | true =>
      have htype : type = .autorepeat := if_neg hdead
      rw [htype]
      refine hstroke [_, _] fun b => ?_
      rw [mem_replay_autorepeat, hpress, Finset.mem_insert]
    | false =>
      have htype : type = .press := if_neg hdead
      have hsend : K.addKeystrokes .press item s = { s with
          keystrokes := s.keystrokes ++ [.button item.button true false item.client] } :=
        if_pos hgen
      rw [htype, hsend]
      refine hstroke [_] fun b => ?_
      rw [mem_replay_press, hpress, Finset.mem_insert]

theorem getLsbD_of_not (h : (~~~mask).getLsbD bit = true) : mask.getLsbD bit = false := by
  rw [BitVec.getLsbD_not] at h
  simpa using ((Bool.and_eq_true ..).mp h).2

/-- One item of the key: the modifiers are switched for it, then its button is pressed. -/
theorem keysForKeyItem_kept {isAutoRepeat : Bool} {before after : ℕ × Synthesis}
    (hstart : Start K s₀ down m) (hitem : item ∈ m.items) (hgen : item.generates = 0)
    (hnot : NotModifier K s₀ item.button)
    (h : K.keysForKeyItem m.desired m.override isAutoRepeat item before = some after)
    (hs : Kept K s₀ down m before.2) :
    Kept K s₀ down m after.2 ∧ ∀ b, NotModifier K s₀ b →
      (b ∈ after.2.pressed down ↔ b ∈ pressItem (before.2.pressed down) item) := by
  unfold keysForKeyItem at h
  dsimp only at h
  generalize hgroup : (if before.1 = item.group then before.2 else { before.2 with
    keystrokes := before.2.keystrokes ++ [.group item.group true false] }) = s at h
  -- The keystroke for the group, if the item is in another one, changes nothing.
  have hbegin : Kept K s₀ down m s ∧ ∀ b, b ∈ s.pressed down ↔ b ∈ before.2.pressed down := by
    rw [← hgroup]
    by_cases hsame : before.1 = item.group
    · rw [if_pos hsame]
      exact ⟨hs, fun _ => Iff.rfl⟩
    · rw [if_neg hsame]
      refine ⟨hs.send hstart.plain fun j _ => by rw [replay_group], fun b => ?_⟩
      rw [Synthesis.pressed, replay_append, replay_group, Synthesis.pressed]
  obtain ⟨hbegin, hdown⟩ := hbegin
  -- The keystroke of the item itself, which both kinds of items end with.
  have hpress : ∀ {s' : Synthesis}, Kept K s₀ down m s' →
      (∀ b, NotModifier K s₀ b → (b ∈ s'.pressed down ↔ b ∈ s.pressed down)) →
      let type := if item.dead then .click else if isAutoRepeat then .autorepeat else .press
      Kept K s₀ down m (K.addKeystrokes type item s') ∧ ∀ b, NotModifier K s₀ b →
        (b ∈ (K.addKeystrokes type item s').pressed down ↔
          b ∈ pressItem (before.2.pressed down) item) := by
    intro s' hs' hothers
    obtain ⟨hkept, hpressed⟩ := hs'.strike isAutoRepeat hstart.plain hgen hnot
    refine ⟨hkept, fun b hb => ?_⟩
    rw [hpressed b, mem_pressItem, mem_pressItem, hothers b hb, hdown b]
  have hrequired : ∀ bit, (m.sensitive item).getLsbD bit = true →
      BitVec.getLsbD 0#32 bit = false → K.MayBe s₀ m bit (!item.required.getLsbD bit) →
      K.MaySwitch s₀ m bit (item.required.getLsbD bit) :=
    fun bit hsens _ hwrong => .required hitem hsens hwrong
  by_cases hdead : item.dead = true
  · -- a dead key: only the modifiers that it requires are switched
    have hsensitive : m.sensitive item = item.sensitive := if_pos hdead
    rw [if_pos hdead, ← hsensitive] at h
    cases hcall : K.keysForModifierState item.button item.group item.required
        (m.sensitive item) 0 s with
    | mk ok s' =>
      rw [hcall] at h
      cases ok with
      | false => cases h
      | true =>
        cases h
        obtain ⟨hs', hothers⟩ := keysForModifierState_kept hstart hitem hcall hbegin hrequired
        have hresult := hpress hs' hothers
        rw [if_pos hdead] at hresult
        exact hresult
  · -- another key: those that it requires, then those that are desired and do not disturb it
    have hsensitive : m.sensitive item = item.sensitive &&& ~~~m.override := if_neg hdead
    rw [if_neg hdead, ← hsensitive] at h
    cases hcall : K.keysForModifierState item.button item.group item.required
        (m.sensitive item) 0 s with
    | mk ok s' =>
      rw [hcall] at h
      cases ok with
      | false => cases h
      | true =>
        obtain ⟨hs', hothers⟩ := keysForModifierState_kept hstart hitem hcall hbegin hrequired
        dsimp only at h
        cases hcall' : K.keysForModifierState item.button item.group m.desired
            (~~~(m.sensitive item ||| item.generates)) notRequiredMask s' with
        | mk ok' s'' =>
          rw [hcall'] at h
          cases ok' with
          | false => cases h
          | true =>
            cases h
            obtain ⟨hs'', hothers'⟩ := keysForModifierState_kept hstart hitem hcall' hs'
              fun bit hfree hnot hwrong =>
                .desired hitem (Bool.eq_false_iff.2 hdead) (getLsbD_of_not hfree) hnot hwrong
            have hresult := hpress hs'' fun b hb => (hothers' b hb).trans (hothers b hb)
            rw [if_neg hdead] at hresult
            exact hresult

/-- The items of the key, one after another. -/
theorem keysForKeyItems_kept {isAutoRepeat : Bool} {before after : ℕ × Synthesis}
    {rest : List KeyItem} (hstart : Start K s₀ down m)
    (hitems : ∀ item ∈ rest, item ∈ m.items ∧ item.generates = 0 ∧
      NotModifier K s₀ item.button)
    (h : K.keysForKeyItems m.desired m.override isAutoRepeat rest before = some after)
    (hs : Kept K s₀ down m before.2) :
    Kept K s₀ down m after.2 ∧ ∀ b, NotModifier K s₀ b →
      (b ∈ after.2.pressed down ↔ b ∈ rest.foldl pressItem (before.2.pressed down)) := by
  induction rest generalizing before with
  | nil =>
    cases h
    exact ⟨hs, fun _ _ => Iff.rfl⟩
  | cons item rest ih =>
    obtain ⟨⟨hitem, hgen, hnot⟩, hrest⟩ := List.forall_mem_cons.1 hitems
    obtain ⟨middle, hmiddle, hafter⟩ := Option.bind_eq_some_iff.1 h
    obtain ⟨hs₁, hpressed₁⟩ := keysForKeyItem_kept hstart hitem hgen hnot hmiddle hs
    obtain ⟨hs', hpressed'⟩ := ih hrest hafter hs₁
    refine ⟨hs', fun b hb => ?_⟩
    rw [hpressed' b hb, List.foldl_cons]
    exact mem_foldl_pressItem_congr (hpressed₁ b hb)

/-! ### The button that stays down -/

/-- The last of some items on a button. -/
def lastOn (items : List KeyItem) (b : KeyButton) : Option KeyItem :=
  items.reverse.find? fun item => item.button = b

theorem lastOn_concat : lastOn (items ++ [item]) b =
    if item.button = b then some item else lastOn items b := by
  rw [lastOn, List.reverse_append, List.reverse_singleton, List.singleton_append, List.find?_cons]
  by_cases hb : item.button = b
  · simp [hb]
  · simp [hb, lastOn]

theorem lastOn_eq_none : lastOn items b = none ↔ ∀ item ∈ items, item.button ≠ b := by
  rw [lastOn, List.find?_eq_none]
  simp

theorem lastOn_mem (h : lastOn items b = some item) : item ∈ items ∧ item.button = b :=
  ⟨List.mem_reverse.1 (List.mem_of_find?_eq_some h), by simpa using List.find?_some h⟩

/-- A button is down after some items if the last of them on the button is not dead. -/
theorem mem_foldl_pressItem : b ∈ items.foldl pressItem down ↔
    match lastOn items b with
    | some item => item.dead = false
    | none => b ∈ down := by
  induction items using List.reverseRecOn with
  | nil => exact Iff.rfl
  | append_singleton items item ih =>
    rw [List.foldl_append, List.foldl_cons, List.foldl_nil, mem_pressItem, lastOn_concat]
    by_cases hb : b = item.button
    · rw [if_pos hb, if_pos hb.symm]
    · rw [if_neg hb, if_neg (Ne.symm hb)]
      exact ih

/-- No button that was not down before stays down, but for that of the last item. -/
def LeavesOnlyKey (items : KeyItemList) (down : Finset KeyButton) : Prop :=
  ∀ b item, lastOn items.1 b = some item → item.dead = false → b ≠ items.back.button →
    b ∈ down ∧ ∀ d ∈ items.1, d.button = b → d.dead = false

/-- The buttons that should be down: those that were, but for dead keys, and that of the key. -/
def ShouldBeDown (items : KeyItemList) (down : Finset KeyButton) (b : KeyButton) : Prop :=
  (b ∈ down ∧ ∀ d ∈ items.1, d.button = b → d.dead = false) ∨
    b = items.back.button ∧ items.back.dead = false

theorem lastOn_back (items : KeyItemList) :
    lastOn items.1 items.back.button = some items.back := by
  have hsplit := List.dropLast_append_getLast items.2
  rw [← hsplit, lastOn_concat, KeyItemList.back, if_pos rfl]

/-- The items leave those buttons down that should be exactly when the last one on each button is
dead, or the last one of all, or on a button that was down. -/
theorem leavesOnlyKey_iff {items : KeyItemList} :
    (∀ b, b ∈ items.1.foldl pressItem down ↔ ShouldBeDown items down b) ↔
      LeavesOnlyKey items down := by
  constructor
  · intro h b item hlast hdead hne
    have hdown : b ∈ items.1.foldl pressItem down := by
      rw [mem_foldl_pressItem, hlast]
      exact hdead
    exact ((h b).1 hdown).resolve_right fun hkey => hne hkey.1
  · intro h b
    rw [mem_foldl_pressItem]
    cases hlast : lastOn items.1 b with
    | none =>
      have hnone := lastOn_eq_none.1 hlast
      have hkey : b ≠ items.back.button := fun heq =>
        hnone items.back (List.getLast_mem items.2) heq.symm
      exact ⟨fun hdown => .inl ⟨hdown, fun d hd hb => absurd hb (hnone d hd)⟩,
        fun hdown => (hdown.resolve_right fun hand => hkey hand.1).1⟩
    | some item =>
      obtain ⟨hitem, hbutton⟩ := lastOn_mem hlast
      by_cases hkey : b = items.back.button
      · subst hkey
        obtain rfl := Option.some.inj ((lastOn_back items).symm.trans hlast)
        exact ⟨fun hdead => .inr ⟨rfl, hdead⟩, fun hdown =>
          hdown.elim (fun hand => hand.2 _ hitem rfl) fun hand => hand.2⟩
      · exact ⟨fun hdead => .inl (h b item hlast hdead hkey), fun hdown =>
          (hdown.resolve_right fun hand => hkey hand.1).2 item hitem hbutton⟩

/-! ### The key -/

/-- The modifiers are as they were before a key, and the buttons are down that should be. -/
structure Restores (before after : Synthesis) (items : KeyItemList) (down : Finset KeyButton) :
    Prop where
  buttons : ∀ b, b ∈ collectButtons after.activeModifiers ↔
    b ∈ collectButtons before.activeModifiers
  state : after.currentState = before.currentState
  pressed : ∀ b, b ∈ after.pressed down ↔ ShouldBeDown items down b

/-- Modifiers that are held by the same buttons are on alike. -/
theorem Sound.state_eq (hplain : Plain K s₀) (hs : Sound K s₀ s)
    (hbuttons : ∀ b, b ∈ collectButtons s.activeModifiers ↔
      b ∈ collectButtons s₀.activeModifiers) : s.currentState = s₀.currentState := by
  refine BitVec.eq_of_getLsbD_eq fun c _ => Bool.eq_iff_iff.2 ?_
  rw [hs.union c, hplain.union c]
  constructor
  · rintro ⟨e, he, hc⟩
    obtain ⟨e', he', hbutton⟩ :=
      mem_collectButtons.1 ((hbuttons e.2.button).1 (mem_collectButtons.2 ⟨e, he, rfl⟩))
    refine ⟨e', he', ?_⟩
    rw [hplain.keyed e' he', hplain.button _ _ (.inr ⟨e'.1, he'⟩) (hs.modifier e he) hbutton,
      ← hs.keyed e he]
    exact hc
  · rintro ⟨e, he, hc⟩
    obtain ⟨e', he', hbutton⟩ :=
      mem_collectButtons.1 ((hbuttons e.2.button).2 (mem_collectButtons.2 ⟨e, he, rfl⟩))
    refine ⟨e', he', ?_⟩
    rw [hs.keyed e' he', hplain.button _ _ (hs.modifier e' he') (.inr ⟨e.1, he⟩) hbutton,
      ← hplain.keyed e he]
    exact hc

/-- Where items are synthesized, the modifiers are restored, and so are the buttons exactly when
the items leave only the last one down. -/
theorem mapItems_restores {isAutoRepeat : Bool} {group : ℕ} {items : KeyItemList}
    (hstart : Start K s₀ down m) (hm : m.items = items.1) (hsent : s₀.keystrokes = [])
    (hitems : ∀ item ∈ items.1, item.generates = 0 ∧ NotModifier K s₀ item.button)
    (h : K.mapItems items.1 items.back group m.desired m.override isAutoRepeat s₀ =
      (some item, s')) :
    Restores s₀ s' items down ↔ LeavesOnlyKey items down := by
  unfold mapItems at h
  cases hkeys : K.keysForKeyItems m.desired m.override isAutoRepeat items.1 (group, s₀) with
  | none =>
    rw [hkeys] at h
    cases h
  | some after =>
    rw [hkeys] at h
    obtain ⟨newGroup, s⟩ := after
    obtain ⟨hkept, hpressed⟩ := keysForKeyItems_kept hstart
      (fun item hitem => ⟨hm ▸ hitem, hitems item hitem⟩) hkeys (hstart.kept hsent)
    obtain ⟨hsound, hbuttons, hmodifiers, hothers⟩ := keysToRestoreModifiers_restores hstart hkept
      (hitems items.back (List.getLast_mem items.2)).2
    -- Going back to the group is a keystroke without an effect on buttons or modifiers.
    have hgroup : s'.activeModifiers =
          (K.keysToRestoreModifiers items.back s₀.activeModifiers s).activeModifiers ∧
        s'.currentState =
          (K.keysToRestoreModifiers items.back s₀.activeModifiers s).currentState ∧
        s'.pressed down =
          (K.keysToRestoreModifiers items.back s₀.activeModifiers s).pressed down := by
      obtain ⟨-, hresult⟩ := Prod.ext_iff.1 h
      dsimp only at hresult
      rw [← hresult]
      by_cases hsame : newGroup = group
      · rw [if_pos hsame]
        exact ⟨rfl, rfl, rfl⟩
      · rw [if_neg hsame]
        exact ⟨rfl, rfl, replay_append⟩
    obtain ⟨hactive, hstate, hdown⟩ := hgroup
    -- The buttons are those that the items leave down, as the items touch no modifier.
    have hitemsDown : ∀ b, b ∈ s'.pressed down ↔ b ∈ items.1.foldl pressItem down := by
      intro b
      rw [hdown]
      by_cases hb : NotModifier K s₀ b
      · rw [hothers b hb, hpressed b hb]
        rw [Synthesis.pressed, hsent]
        exact Iff.rfl
      · obtain ⟨j, hj, hbutton⟩ : ∃ j, K.IsModifier s₀ j ∧ j.button = b := by
          simpa [NotModifier] using hb
        have hnone : lastOn items.1 b = none := lastOn_eq_none.2 fun item hitem heq =>
          (hitems item hitem).2 j hj (hbutton.trans heq.symm)
        rw [mem_foldl_pressItem, hnone, ← hbutton]
        exact hmodifiers j hj
    rw [← leavesOnlyKey_iff]
    refine ⟨fun hrestores b => (hitemsDown b).symm.trans (hrestores.pressed b), fun h => ?_⟩
    refine ⟨fun b => ?_, ?_, fun b => (hitemsDown b).trans (h b)⟩
    · rw [hactive]
      exact hbuttons b
    · rw [hstate]
      exact hsound.state_eq hstart.plain hbuttons

theorem mapItems_back {desired override : KeyModifierMask} {isAutoRepeat : Bool} {group : ℕ}
    {keyItem : KeyItem}
    (h : K.mapItems items keyItem group desired override isAutoRepeat s = (some item, s')) :
    item = keyItem := by
  unfold mapItems at h
  cases hkeys : K.keysForKeyItems desired override isAutoRepeat items (group, s) with
  | none =>
    rw [hkeys] at h
    cases h
  | some after =>
    rw [hkeys] at h
    exact (Option.some.inj (Prod.ext_iff.1 h).1).symm

/-- Where items cannot be synthesized, nothing changes. -/
theorem mapItems_none {desired override : KeyModifierMask} {isAutoRepeat : Bool} {group : ℕ}
    {keyItem : KeyItem} (hsent : s.keystrokes = [])
    (h : K.mapItems items keyItem group desired override isAutoRepeat s = (none, s')) :
    s' = s := by
  unfold mapItems at h
  cases hkeys : K.keysForKeyItems desired override isAutoRepeat items (group, s) with
  | none =>
    rw [hkeys] at h
    cases h
    rw [← hsent]
  | some after =>
    rw [hkeys] at h
    cases h

/-! ### The key that is mapped -/

section Key

variable (K : KeyMap)

/-- The items for a key that is not a modifier: one button for a command, else the best way to
synthesize a character. -/
def mappedItems (id : KeyID) (group : ℕ) (desired : KeyModifierMask) : Option KeyItemList :=
  K.keyIDMap[id]?.bind fun table =>
    if isCommand desired then (K.commandItem table group desired).map KeyItemList.single
    else K.characterEntry table group desired

/-- What a key is mapped with. A command leaves CapsLock alone, and its button need not have the
modifiers that it requires. -/
def mappingOf (desired currentState : KeyModifierMask) (items : List KeyItem) : Mapping :=
  if isCommand desired then
    ⟨items, (desired &&& ~~~keyModifierCapsLock) ||| (currentState &&& keyModifierCapsLock),
      overrideModifiers⟩
  else ⟨items, desired, 0⟩

/-- The key is not one for modifiers, and none of its buttons is one of a modifier. -/
structure NonModifierKey (s : Synthesis) (id : KeyID) : Prop where
  modifier : id ∉ modifierIDs
  set : id ≠ keySetModifiers
  clear : id ≠ keyClearModifiers
  buttons : ∀ table, K.keyIDMap[id]? = some table → ∀ item ∈ KeyGroupTable.items table,
    NotModifier K s item.button

end Key

variable {id : KeyID} {group : ℕ} {desired : KeyModifierMask} {isAutoRepeat : Bool}
variable {keys : KeyItemList} {table : KeyGroupTable}

theorem mappingOf_items {currentState : KeyModifierMask} :
    (mappingOf desired currentState items).items = items := by
  unfold mappingOf
  split_ifs
  · rfl
  · rfl

theorem mem_items_of_characterEntry (h : K.characterEntry table group desired = some keys)
    (hitem : item ∈ keys.1) : item ∈ KeyGroupTable.items table := by
  obtain ⟨offset, -, hfound⟩ := List.exists_of_findSome?_eq_some h
  obtain ⟨i, -, hi⟩ := Option.bind_eq_some_iff.1 hfound
  have hkeys := List.mem_of_getElem? hi
  exact List.mem_flatMap.2 ⟨keys, mem_flatten_of_mem_getD hkeys, hitem⟩

theorem mem_items_of_commandItem (h : K.commandItem table group desired = some item) :
    item ∈ KeyGroupTable.items table := by
  obtain ⟨offset, -, hfound⟩ := List.exists_of_findSome?_eq_some h
  obtain ⟨entry, hentry, hone⟩ := List.exists_of_findSome?_eq_some hfound
  refine List.mem_flatMap.2 ⟨entry, mem_flatten_of_mem_getD hentry, ?_⟩
  split at hone
  · rename_i item' hsingle
    obtain ⟨-, hitem⟩ := Option.ite_none_right_eq_some.1 hone
    rw [hsingle, Option.some.inj hitem]
    exact List.mem_singleton_self item
  · cases hone

/-- The items of a key that is not a modifier generate none, and are on no button of one. -/
theorem NonModifierKey.mappedItems (hkey : NonModifierKey K s id)
    (h : K.mappedItems id group desired = some keys) (hitem : item ∈ keys.1) :
    item.generates = 0 ∧ NotModifier K s item.button := by
  obtain ⟨table, htable, hkeys⟩ := Option.bind_eq_some_iff.1 h
  have hmem : item ∈ KeyGroupTable.items table := by
    by_cases hcommand : isCommand desired = true
    · rw [if_pos hcommand] at hkeys
      obtain ⟨item', hitem', rfl⟩ := Option.map_eq_some_iff.1 hkeys
      rw [List.mem_singleton.1 hitem]
      exact mem_items_of_commandItem hitem'
    · rw [if_neg hcommand] at hkeys
      exact mem_items_of_characterEntry hkeys hitem
  have hnot := hkey.buttons table htable item hmem
  refine ⟨Decidable.byContradiction fun hgen => ?_, hnot⟩
  refine hnot item (.inl ⟨List.mem_flatMap.2 ⟨(id, table), ?_, hmem⟩, hgen⟩) rfl
  exact Std.TreeMap.mem_toList_iff_getElem?_eq_some.2 htable

/-- A key that is not a modifier is mapped by its items, unless it changes the group. -/
theorem NonModifierKey.mapKey_eq (hkey : NonModifierKey K s id) (hnext : id ≠ keyNextGroup)
    (hprev : id ≠ keyPrevGroup) :
    K.mapKey id group desired isAutoRepeat s =
      match K.mappedItems id group desired with
      | none => (none, s)
      | some keys =>
        let m := mappingOf desired s.currentState keys.1
        K.mapItems keys.1 keys.back group m.desired m.override isAutoRepeat s := by
  rw [mapKey, if_neg hnext, if_neg hprev, if_neg hkey.modifier, if_neg hkey.set,
    if_neg hkey.clear]
  by_cases hcommand : isCommand desired = true
  · simp only [mappingOf, if_pos hcommand, mapCommandKey, KeyMap.mappedItems]
    cases K.keyIDMap[id]? with
    | none => rfl
    | some table =>
      rw [Option.bind_some]
      dsimp only
      cases K.commandItem table group desired with
      | none => rfl
      | some item => rfl
  · simp only [mappingOf, if_neg hcommand, mapCharacterKey, KeyMap.mappedItems]
    cases K.keyIDMap[id]? with
    | none => rfl
    | some table => rfl

/-- A button for a key, whatever the modifiers. -/
def plainItem (id : KeyID) (button : KeyButton) (dead : Bool) : KeyItem where
  id := id
  group := 0
  button := button
  required := 0
  sensitive := 0
  generates := 0
  dead := dead
  lock := false
  client := 0

/-- The button of Shift. -/
def leftShift : KeyItem := { plainItem 0xefe1 50 false with generates := 0x1 }

/-- The button of CapsLock. -/
def capsLock : KeyItem := { plainItem 0xefe5 66 false with generates := 0x1000, lock := true }

/-- An a, which needs Shift and CapsLock off. -/
def smallA : KeyItem := { plainItem 0x61 38 false with sensitive := 0x1001 }

/-- A keyboard with an a and with two modifiers. -/
def typewriter : KeyMap where
  keyIDMap := .ofList
    [(0xefe1, [[KeyItemList.single leftShift]]), (0xefe5, [[KeyItemList.single capsLock]]),
      (0x61, [[KeyItemList.single smallA]])]
  numGroups := 1
  halfDuplex := ∅
  groups := by decide +kernel

/-- Shift is held, and CapsLock is on. -/
def shifted : Synthesis where
  activeModifiers := (Multimap.empty.insert 0x1 leftShift).insert 0x1000 capsLock
  currentState := 0x1001
  keystrokes := []

theorem mem_shifted {e : KeyModifierMask × KeyItem} :
    e ∈ shifted.activeModifiers ↔ e = (0x1, leftShift) ∨ e = (0x1000, capsLock) := by
  have hentries : shifted.activeModifiers.entries = [(0x1, leftShift), (0x1000, capsLock)] := by
    decide +kernel
  rw [Multimap.mem_def, hentries, List.mem_cons, List.mem_singleton]

theorem typewriter_isModifier (h : typewriter.IsModifier shifted item) :
    item = leftShift ∨ item = capsLock := by
  have hkeys : ∀ item ∈ typewriter.keyItems, item.generates ≠ 0 →
      item = leftShift ∨ item = capsLock := by decide +kernel
  rcases h with ⟨hitem, hgen⟩ | ⟨mask, hactive⟩
  · exact hkeys item hitem hgen
  · exact (mem_shifted.1 hactive).imp (congrArg Prod.snd) (congrArg Prod.snd)

theorem typewriter_plain : Plain typewriter shifted where
  single := fun item h => by
    rcases typewriter_isModifier h with rfl | rfl
    · exact ⟨0, by decide, by decide⟩
    · exact ⟨12, by decide, by decide⟩
  button := fun item item' h h' hbutton => by
    rcases typewriter_isModifier h with rfl | rfl <;>
      rcases typewriter_isModifier h' with rfl | rfl
    · rfl
    · exact absurd hbutton (by decide)
    · exact absurd hbutton (by decide)
    · rfl
  duplex := fun _ => Std.TreeSet.not_mem_emptyc
  keyed := fun e he => by
    rcases mem_shifted.1 he with rfl | rfl
    · rfl
    · rfl
  union := fun c => by
    have hmask : shifted.currentState = 0x1 ||| 0x1000 := by decide
    rw [hmask, BitVec.getLsbD_or, Bool.or_eq_true]
    constructor
    · rintro (hc | hc)
      · exact ⟨_, mem_shifted.2 (.inl rfl), hc⟩
      · exact ⟨_, mem_shifted.2 (.inr rfl), hc⟩
    · rintro ⟨e, he, hc⟩
      rcases mem_shifted.1 he with rfl | rfl
      · exact .inl hc
      · exact .inr hc

theorem typewriter_heldDown (m : Mapping) : HeldDown typewriter shifted {50} m := by
  intro bit v item _ hitem _
  rw [Finset.mem_singleton]
  constructor
  · intro hbutton
    exact ⟨_, mem_shifted.2 (.inl rfl), rfl, hbutton.symm⟩
  · rintro ⟨e, he, hlock, hbutton⟩
    rcases mem_shifted.1 he with rfl | rfl
    · exact hbutton.symm
    · cases hlock

/-- Each modifier has one key. -/
theorem typewriter_locksAgree (m : Mapping) : LocksAgree typewriter shifted m := by
  have hlock : ∀ item item', typewriter.IsModifier shifted item →
      typewriter.IsModifier shifted item' → item.generates = item'.generates →
      item.lock = item'.lock := by
    intro item item' h h' hgen
    rcases typewriter_isModifier h with rfl | rfl <;>
      rcases typewriter_isModifier h' with rfl | rfl
    · rfl
    · exact absurd hgen (by decide)
    · exact absurd hgen (by decide)
    · rfl
  have hbutton : ∀ item item', typewriter.IsModifier shifted item →
      typewriter.IsModifier shifted item' → item.button = item'.button →
      item.lock = item'.lock := fun item item' h h' heq =>
    hlock item item' h h' (typewriter_plain.button item item' h h' heq)
  refine ⟨fun bit k k' _ _ hk hk' => ?_, fun bit k _ _ hk e he heq => ?_,
    fun bit _ e he _ e' he' heq => ?_⟩
  · obtain ⟨hmod, hgen⟩ := hk.generates_eq typewriter_plain
    obtain ⟨hmod', hgen'⟩ := hk'.generates_eq typewriter_plain
    exact hlock k k' hmod hmod' (hgen.trans hgen'.symm)
  · exact hbutton _ _ (.inr ⟨e.1, he⟩) (hk.generates_eq typewriter_plain).1 heq
  · exact hbutton _ _ (.inr ⟨e.1, he⟩) (.inr ⟨e'.1, he'⟩) heq

/-- The keys that make an ae: Compose, a and e. -/
def composedItems : KeyItemList :=
  ⟨[plainItem 0xef20 108 true, plainItem 0x61 38 false, plainItem 0x65 26 false],
    List.cons_ne_nil _ _⟩

/-- A keyboard with Compose, a and e, which can compose an ae. -/
def composeKeys : KeyMap where
  keyIDMap := .ofList
    [(0xef20, [[KeyItemList.single (plainItem 0xef20 108 true)]]),
      (0x61, [[KeyItemList.single (plainItem 0x61 38 false)]]),
      (0x65, [[KeyItemList.single (plainItem 0x65 26 false)]]),
      (0xe6, [[composedItems]])]
  numGroups := 1
  halfDuplex := ∅
  groups := by decide +kernel

theorem composeKeys_not_isModifier : ¬composeKeys.IsModifier released item := by
  have hnone : ∀ item ∈ composeKeys.keyItems, item.generates = 0 := by decide +kernel
  rintro (⟨hitem, hgen⟩ | ⟨mask, hactive⟩)
  · exact hgen (hnone item hitem)
  · exact absurd hactive List.not_mem_nil

theorem composeKeys_plain : Plain composeKeys released where
  single := fun _ h => absurd h composeKeys_not_isModifier
  button := fun _ _ h => absurd h composeKeys_not_isModifier
  duplex := fun _ => Std.TreeSet.not_mem_emptyc
  keyed := fun _ h => absurd h List.not_mem_nil
  union := fun c => by
    refine ⟨fun h => absurd h ?_, fun ⟨_, h, _⟩ => absurd h List.not_mem_nil⟩
    simp [released]

end KeyMap

end InputLeap
