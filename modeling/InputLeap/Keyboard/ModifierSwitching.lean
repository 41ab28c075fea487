import InputLeap.Keyboard.MapKey

/-!
# Switching modifiers for a key

While `mapKey` switches modifiers for a key, a modifier is held as before, or by copies of one key
that is used for it. That is all that is needed to switch it back, if the keys of a modifier that is
switched on and off again agree on whether it is a lock: a lock is clicked, and that does not
release a key that was pressed.

## Main definitions

* `KeyMap.Plain` : each button generates at most one modifier, and the modifiers that are on are
  those of the active keys.
* `KeyMap.MaySwitch` : which modifiers may be switched for a key.
* `KeyMap.HeldDown` : the keys that hold a modifier that may be switched are down.
* `KeyMap.LocksAgree` : the keys of a modifier that may be switched on and off are all locks, or
  none is.
* `KeyMap.Kept` : what holds while modifiers are switched for a key.

## Main results

* `KeyMap.Kept.switch` : switching a modifier keeps that.
* `KeyMap.keysForModifierState_kept` : so does a call that switches modifiers.
-/

namespace InputLeap

namespace KeyMap

/-- All items of a table. -/
def KeyGroupTable.items (table : KeyGroupTable) : List KeyItem :=
  table.flatten.flatMap fun entry => entry.1

section Definitions

variable (K : KeyMap) (s : Synthesis)

/-- All items of the map. -/
def keyItems : List KeyItem := K.keyIDMap.toList.flatMap fun key => KeyGroupTable.items key.2

/-- The item is one of a modifier: it is in the map and generates one, or it is active. -/
def IsModifier (item : KeyItem) : Prop :=
  item ∈ K.keyItems ∧ item.generates ≠ 0 ∨ ∃ mask, (mask, item) ∈ s.activeModifiers

/-- Each button generates at most one modifier, no button is half-duplex, and the modifiers that
are on are those of the active keys. -/
structure Plain : Prop where
  single : ∀ item, K.IsModifier s item → ∃ bit < 32, item.generates = bitMask bit
  button : ∀ item item', K.IsModifier s item → K.IsModifier s item' →
    item.button = item'.button → item.generates = item'.generates
  duplex : ∀ b, b ∉ K.halfDuplex
  keyed : ∀ e ∈ s.activeModifiers, e.1 = e.2.generates
  union : ∀ c, s.currentState.getLsbD c = true ↔
    ∃ e ∈ s.activeModifiers, e.1.getLsbD c = true

/-- What a key is mapped with: the items to synthesize, the modifiers that are desired, and those
that the items need not have as they require (`overrideModifiers`). -/
structure Mapping where
  items : List KeyItem
  desired : KeyModifierMask
  override : KeyModifierMask

/-- The modifiers that have to be as an item requires. -/
def Mapping.sensitive (m : Mapping) (item : KeyItem) : KeyModifierMask :=
  if item.dead then item.sensitive else item.sensitive &&& ~~~m.override

/-- The item is the key of a modifier for one of the items. -/
def UsedFor (m : Mapping) (bit : ℕ) (key : KeyItem) : Prop :=
  bit < keyModifierNumBits ∧
    ∃ item ∈ m.items, K.keyForModifier item.button item.group bit = some key

mutual

/-- A modifier may be on or off when the items are synthesized: it is so at first, or it may be
switched. -/
inductive MayBe (m : Mapping) : ℕ → Bool → Prop
  | start {bit v} (h : s.currentState.getLsbD bit = v) : MayBe m bit v
  | switched {bit v} (h : MaySwitch m bit v) : MayBe m bit v

/-- A modifier may be switched on or off when the items are synthesized, for an item or for the
key of another modifier. -/
inductive MaySwitch (m : Mapping) : ℕ → Bool → Prop
  | required {bit item} (hitem : item ∈ m.items) (hsens : (m.sensitive item).getLsbD bit = true)
      (hwrong : MayBe m bit (!item.required.getLsbD bit)) :
      MaySwitch m bit (item.required.getLsbD bit)
  | desired {bit item} (hitem : item ∈ m.items) (hdead : item.dead = false)
      (hfree : (m.sensitive item ||| item.generates).getLsbD bit = false)
      (hnot : notRequiredMask.getLsbD bit = false)
      (hwrong : MayBe m bit (!m.desired.getLsbD bit)) : MaySwitch m bit (m.desired.getLsbD bit)
  | needed {bit c key} (h : MaySwitch m bit true) (hkey : K.UsedFor m bit key)
      (hsens : (key.sensitiveBut bit).getLsbD c = true)
      (hwrong : MayBe m c (!key.required.getLsbD c)) : MaySwitch m c (key.required.getLsbD c)

end

/-- Of the buttons of modifiers that may be switched, those of the active keys are down, but for
locks. -/
def HeldDown (down : Finset KeyButton) (m : Mapping) : Prop :=
  ∀ bit v item, K.MaySwitch s m bit v → K.IsModifier s item → item.generates = bitMask bit →
    (item.button ∈ down ↔
      ∃ e ∈ s.activeModifiers, e.2.lock = false ∧ e.2.button = item.button)

/-- Whether a modifier is a lock is the same for all its keys and for all that is on the button of
one, as far as the modifier may be switched on and off; and for all that is active on a button, if
it may be switched off. -/
structure LocksAgree (m : Mapping) : Prop where
  used : ∀ bit k k', K.MaySwitch s m bit true → K.MaySwitch s m bit false →
    K.UsedFor m bit k → K.UsedFor m bit k' → k.lock = k'.lock
  active : ∀ bit k, K.MaySwitch s m bit true → K.MaySwitch s m bit false → K.UsedFor m bit k →
    ∀ e ∈ s.activeModifiers, e.2.button = k.button → e.2.lock = k.lock
  held : ∀ bit, K.MaySwitch s m bit false → ∀ e ∈ s.activeModifiers, e.1 = bitMask bit →
    ∀ e' ∈ s.activeModifiers, e.2.button = e'.2.button → e.2.lock = e'.2.lock

/-- The entries are those of modifiers, and the modifiers that are on are theirs. -/
structure Sound (s' : Synthesis) : Prop where
  keyed : ∀ e ∈ s'.activeModifiers, e.1 = e.2.generates
  modifier : ∀ e ∈ s'.activeModifiers, K.IsModifier s e.2
  union : ∀ c, s'.currentState.getLsbD c = true ↔
    ∃ e ∈ s'.activeModifiers, e.1.getLsbD c = true

end Definitions

variable {K : KeyMap} {s₀ s s' : Synthesis} {item k : KeyItem} {mask : KeyModifierMask}
variable {bit group : ℕ} {b button : KeyButton} {down : Finset KeyButton}

/-! ### Keys of modifiers -/

theorem mem_flatten_of_mem_getD {table : KeyGroupTable} {entry : KeyItemList} {i : ℕ}
    (h : entry ∈ table.getD i []) : entry ∈ table.flatten := by
  rw [List.getD_eq_getElem?_getD] at h
  cases hi : table[i]? with
  | none => simp [hi] at h
  | some entries =>
    rw [hi] at h
    exact List.mem_flatten.2 ⟨entries, List.mem_of_getElem? hi, h⟩

theorem mem_keyItems_of_mem_modifierKeys (h : item ∈ K.modifierKeys group bit) :
    item ∈ K.keyItems := by
  rw [modifierKeys, List.mem_flatMap] at h
  obtain ⟨key, hkey, h⟩ := h
  obtain ⟨entry, hentry, h⟩ := List.mem_flatMap.1 h
  refine List.mem_flatMap.2 ⟨key, hkey, ?_⟩
  refine List.mem_flatMap.2 ⟨entry, mem_flatten_of_mem_getD hentry, ?_⟩
  split at h
  · rename_i hone
    rw [List.mem_ite_nil_right, List.mem_singleton] at h
    rw [hone, List.mem_singleton]
    exact h.2
  · exact absurd h List.not_mem_nil

/-- The key of a modifier generates that modifier alone. -/
theorem Plain.generates_eq (hplain : Plain K s₀)
    (h : K.keyForModifier button group bit = some k) :
    K.IsModifier s₀ k ∧ k.generates = bitMask bit := by
  have hgen := generates_of_keyForModifier h
  have hmod : K.IsModifier s₀ k := by
    refine .inl ⟨mem_keyItems_of_mem_modifierKeys (List.mem_of_find?_eq_some h), ?_⟩
    intro hzero
    simp [hzero] at hgen
  obtain ⟨bit', -, hbit'⟩ := hplain.single k hmod
  rw [hbit', getLsbD_bitMask] at hgen
  exact ⟨hmod, (of_decide_eq_true hgen).2 ▸ hbit'⟩

theorem Plain.sound (hplain : Plain K s₀) : Sound K s₀ s₀ where
  keyed := hplain.keyed
  modifier := fun e he => .inr ⟨e.1, he⟩
  union := hplain.union

/-- Entries with a common modifier are of one modifier. -/
theorem Sound.eq_of_getLsbD (hplain : Plain K s₀) (hs : Sound K s₀ s) (hk : K.IsModifier s₀ k)
    {e : KeyModifierMask × KeyItem} (he : e ∈ s.activeModifiers) {c : ℕ}
    (hec : e.1.getLsbD c = true) (hkc : k.generates.getLsbD c = true) : e.1 = k.generates := by
  obtain ⟨bit, -, hbit⟩ := hplain.single e.2 (hs.modifier e he)
  obtain ⟨bit', -, hbit'⟩ := hplain.single k hk
  rw [hs.keyed e he, hbit, getLsbD_bitMask] at hec
  rw [hbit', getLsbD_bitMask] at hkc
  rw [hs.keyed e he, hbit, hbit', (of_decide_eq_true hec).2, (of_decide_eq_true hkc).2]

/-- A modifier gets a key. -/
theorem Sound.activate (hs : Sound K s₀ s) (hk : K.IsModifier s₀ k)
    (hactive : s'.activeModifiers = s.activeModifiers.insert k.generates k)
    (hstate : s'.currentState = s.currentState ||| k.generates) : Sound K s₀ s' where
  keyed := by
    intro e he
    rw [hactive, Multimap.mem_insert] at he
    rcases he with rfl | he
    · rfl
    · exact hs.keyed e he
  modifier := by
    intro e he
    rw [hactive, Multimap.mem_insert] at he
    rcases he with rfl | he
    · exact hk
    · exact hs.modifier e he
  union := by
    intro c
    rw [hstate, hactive, BitVec.getLsbD_or, Bool.or_eq_true, hs.union c]
    simp only [Multimap.mem_insert]
    constructor
    · rintro (⟨e, he, hc⟩ | hc)
      · exact ⟨e, .inr he, hc⟩
      · exact ⟨_, .inl rfl, hc⟩
    · rintro ⟨e, rfl | he, hc⟩
      · exact .inr hc
      · exact .inl ⟨e, he, hc⟩

/-- A modifier loses all its keys. -/
theorem Sound.deactivate (hplain : Plain K s₀) (hs : Sound K s₀ s) (hk : K.IsModifier s₀ k)
    (hactive : ∀ e, e ∈ s'.activeModifiers ↔ e ∈ s.activeModifiers ∧ e.1 ≠ k.generates)
    (hstate : s'.currentState = s.currentState &&& ~~~k.generates) : Sound K s₀ s' where
  keyed := fun e he => hs.keyed e ((hactive e).1 he).1
  modifier := fun e he => hs.modifier e ((hactive e).1 he).1
  union := by
    intro c
    have hbit : s'.currentState.getLsbD c = true ↔
        s.currentState.getLsbD c = true ∧ k.generates.getLsbD c = false := by
      rw [hstate, BitVec.getLsbD_and, BitVec.getLsbD_not]
      by_cases hc : c < 32
      · simp [hc]
      · simp [hc, BitVec.getLsbD_of_ge _ _ (Nat.le_of_not_lt hc)]
    rw [hbit, hs.union c]
    constructor
    · rintro ⟨⟨e, he, hc⟩, hkc⟩
      refine ⟨e, (hactive e).2 ⟨he, fun heq => ?_⟩, hc⟩
      rw [← heq, hc] at hkc
      cases hkc
    · rintro ⟨e, he, hc⟩
      obtain ⟨he, hne⟩ := (hactive e).1 he
      refine ⟨⟨e, he, hc⟩, Bool.eq_false_iff.2 fun hkc => hne ?_⟩
      exact hs.eq_of_getLsbD hplain hk he hc hkc

/-- A key of a modifier that is not a lock is released. -/
theorem Sound.release (hplain : Plain K s₀) (hs : Sound K s₀ s) (hk : K.IsModifier s₀ k)
    (hactive : s'.activeModifiers =
      s.activeModifiers.eraseFirst k.generates fun j => j.button = k.button)
    (hstate : s'.currentState = if s'.activeModifiers.equalRange k.generates = [] then
      s.currentState &&& ~~~k.generates else s.currentState) : Sound K s₀ s' := by
  have hsub : ∀ e ∈ s'.activeModifiers, e ∈ s.activeModifiers := fun e he =>
    Multimap.mem_of_mem_eraseFirst (hactive ▸ he)
  have hkeep : ∀ e ∈ s.activeModifiers, e.1 ≠ k.generates → e ∈ s'.activeModifiers := by
    intro e he hne
    rw [hactive, Multimap.mem_eraseFirst_of_not fun hand => hne hand.1]
    exact he
  by_cases hlast : s'.activeModifiers.equalRange k.generates = []
  · rw [if_pos hlast] at hstate
    refine hs.deactivate hplain hk (fun e => ⟨fun he => ⟨hsub e he, ?_⟩, ?_⟩) hstate
    · rintro heq
      have hmem : e.2 ∈ s'.activeModifiers.equalRange k.generates :=
        Multimap.mem_equalRange.2 (heq ▸ he)
      rw [hlast] at hmem
      cases hmem
    · exact fun he => hkeep e he.1 he.2
  · rw [if_neg hlast] at hstate
    refine ⟨fun e he => hs.keyed e (hsub e he), fun e he => hs.modifier e (hsub e he), fun c => ?_⟩
    rw [hstate, hs.union c]
    refine ⟨?_, fun ⟨e, he, hc⟩ => ⟨e, hsub e he, hc⟩⟩
    rintro ⟨e, he, hc⟩
    by_cases heq : e.1 = k.generates
    · -- Another key of the modifier is still down.
      obtain ⟨j, hj⟩ := List.exists_mem_of_ne_nil _ hlast
      exact ⟨_, Multimap.mem_equalRange.1 hj, heq ▸ hc⟩
    · exact ⟨e, hkeep e he heq, hc⟩

/-! ### Switching modifiers for a key -/

section Phases

variable (K : KeyMap) (s₀ : Synthesis) (down : Finset KeyButton) (m : Mapping)

/-- What a mapping starts from. -/
structure Start : Prop where
  plain : Plain K s₀
  held : HeldDown K s₀ down m
  locks : LocksAgree K s₀ m

/-- The modifier is held as at first. -/
def Untouched (s : Synthesis) (mask : KeyModifierMask) : Prop :=
  s.activeModifiers.equalRange mask = s₀.activeModifiers.equalRange mask ∧
    ∀ item, K.IsModifier s₀ item → item.generates = mask →
      (item.button ∈ s.pressed down ↔ item.button ∈ down)

/-- The modifier was switched: it is held by `n` copies of its key. A button of it that is down was
down at first or is that of the key. -/
structure HeldBy (s : Synthesis) (bit n : ℕ) (k : KeyItem) : Prop where
  key : K.UsedFor m bit k
  may : ∃ v, K.MaySwitch s₀ m bit v
  range : s.activeModifiers.equalRange (bitMask bit) = List.replicate n k
  on : 0 < n → K.MaySwitch s₀ m bit true
  off : s₀.activeModifiers.equalRange (bitMask bit) ≠ [] → K.MaySwitch s₀ m bit false
  buttons : ∀ item, K.IsModifier s₀ item → item.generates = bitMask bit →
    item.button ∈ s.pressed down →
      item.button ∈ down ∨ 0 < n ∧ k.lock = false ∧ item.button = k.button
  pressed : 0 < n → (k.button ∈ s.pressed down ↔ k.lock = false)

/-- What holds while modifiers are switched. -/
structure Kept (s : Synthesis) : Prop extends Sound K s₀ s where
  expected : ∀ bit, K.MayBe s₀ m bit (s.currentState.getLsbD bit)
  mods : ∀ mask, Untouched K s₀ down s mask ∨
    ∃ bit n k, mask = bitMask bit ∧ HeldBy K s₀ down m s bit n k

end Phases

variable {m : Mapping} {on : Bool}

/-- What is switched may be wrong before. -/
theorem MaySwitch.wrong {v : Bool} (h : K.MaySwitch s₀ m bit v) : K.MayBe s₀ m bit (!v) := by
  cases h with
  | required _ _ hwrong => exact hwrong
  | desired _ _ _ _ hwrong => exact hwrong
  | needed _ _ _ hwrong => exact hwrong

/-- What a modifier needs may be switched, if it is wrong. -/
theorem MaySwitch.needs {c : ℕ} {notRequired : KeyModifierMask}
    (h : K.MaySwitch s₀ m bit true) (hk : K.UsedFor m bit k)
    (hexpected : K.MayBe s₀ m c (s.currentState.getLsbD c))
    (hflip : (flipMask s.currentState k.required (k.sensitiveBut bit) notRequired).getLsbD c =
      true) : K.MaySwitch s₀ m c (k.required.getLsbD c) := by
  obtain ⟨hne, hsens, -⟩ := getLsbD_flipMask.1 hflip
  rw [Bool.eq_not.2 hne] at hexpected
  exact .needed h hk hsens hexpected

/-- What is to be switched on is off. -/
theorem off_of_flipMask {c : ℕ} {currentState required sensitive notRequired : KeyModifierMask}
    (h : (flipMask currentState required sensitive notRequired).getLsbD c = true)
    (hon : required.getLsbD c = true) : currentState.getLsbD c = false :=
  Bool.eq_false_iff.2 fun hcur => (getLsbD_flipMask.1 h).1 (hcur.trans hon.symm)

theorem UsedFor.generates_eq (hplain : Plain K s₀) (h : K.UsedFor m bit k) :
    K.IsModifier s₀ k ∧ k.generates = bitMask bit := by
  obtain ⟨_, item, _, hkey⟩ := h
  exact hplain.generates_eq hkey

theorem bitMask_inj {bit' : ℕ} (hbit : bit < 32) (h : bitMask bit = bitMask bit') : bit = bit' := by
  have hon : (bitMask bit').getLsbD bit = true :=
    h ▸ getLsbD_bitMask.trans (decide_eq_true ⟨hbit, rfl⟩)
  exact (of_decide_eq_true (getLsbD_bitMask ▸ hon)).2.symm

theorem Start.kept (hstart : Start K s₀ down m) (hsent : s₀.keystrokes = []) :
    Kept K s₀ down m s₀ where
  toSound := hstart.plain.sound
  expected := fun _ => .start rfl
  mods := fun mask => .inl ⟨rfl, fun item _ _ => by rw [Synthesis.pressed, hsent]; rfl⟩

/-- A modifier that is off is held by nothing. -/
theorem Sound.range_of_off (hs : Sound K s₀ s) (hbit : bit < 32)
    (hoff : s.currentState.getLsbD bit = false) :
    s.activeModifiers.equalRange (bitMask bit) = [] := by
  refine List.eq_nil_iff_forall_not_mem.2 fun j hj => ?_
  have hon := (hs.union bit).2 ⟨_, Multimap.mem_equalRange.1 hj,
    getLsbD_bitMask.trans (decide_eq_true ⟨hbit, rfl⟩)⟩
  rw [hoff] at hon
  cases hon

/-- A modifier that is held at first and may be off later may be switched off. -/
theorem MayBe.switched_off (hplain : Plain K s₀) (hbit : bit < 32) (h : K.MayBe s₀ m bit false)
    (hheld : s₀.activeModifiers.equalRange (bitMask bit) ≠ []) : K.MaySwitch s₀ m bit false := by
  cases h with
  | start hoff => exact absurd (hplain.sound.range_of_off hbit hoff) hheld
  | switched h => exact h

/-- Switching a modifier leaves the buttons alone that are not of its keys. -/
theorem pressed_switch_of_ne (hplain : Plain K s₀) (hs : Sound K s₀ s) (hk : K.IsModifier s₀ k)
    (hb : ∀ j, K.IsModifier s₀ j → j.generates = k.generates → j.button ≠ b) :
    b ∈ (K.addKeystrokes (switchType on) k s).pressed down ↔ b ∈ s.pressed down := by
  have hne : b ≠ k.button := fun h => hb k hk rfl h.symm
  cases on with
  | true =>
    rw [switchType, if_pos rfl, pressed_modify (hplain.duplex _)]
    by_cases hlock : k.lock = true
    · rw [if_pos hlock]
      exact and_iff_right hne
    · rw [if_neg hlock]
      exact or_iff_right hne
  | false =>
    rw [switchType, if_neg Bool.false_ne_true, pressed_unmodify (hplain.duplex _)]
    refine and_iff_right ?_
    by_cases hlock : k.lock = true
    · rw [if_pos hlock]
      exact hne
    · rw [if_neg hlock]
      intro j hj
      have hmem := Multimap.mem_equalRange.1 hj
      exact hb j (hs.modifier _ hmem) (hs.keyed _ hmem).symm

/-- Switching a modifier on adds a key to it, switching it off frees it. -/
theorem equalRange_switch :
    (K.addKeystrokes (switchType on) k s).activeModifiers.equalRange mask =
      if mask = k.generates then
        if on then s.activeModifiers.equalRange k.generates ++ [k] else []
      else s.activeModifiers.equalRange mask := by
  cases on with
  | true => exact Multimap.equalRange_insert
  | false => exact Multimap.equalRange_eraseKey

theorem Sound.switch (hplain : Plain K s₀) (hs : Sound K s₀ s) (hk : K.IsModifier s₀ k) :
    Sound K s₀ (K.addKeystrokes (switchType on) k s) := by
  cases on with
  | true => exact hs.activate hk rfl rfl
  | false => exact hs.deactivate hplain hk (fun _ => Multimap.mem_eraseKey) rfl

/-- A button of a modifier that is down was down at first, or the modifier is held by its key,
which may be switched on and is no lock. -/
theorem Kept.down_or_held (hs : Kept K s₀ down m s) (hbit : bit < 32)
    (hitem : K.IsModifier s₀ item) (hgen : item.generates = bitMask bit)
    (hdown : item.button ∈ s.pressed down) :
    item.button ∈ down ∨ ∃ k ∈ s.activeModifiers.equalRange (bitMask bit),
      K.UsedFor m bit k ∧ K.MaySwitch s₀ m bit true ∧ k.lock = false ∧ item.button = k.button := by
  rcases hs.mods (bitMask bit) with ⟨-, hpressed⟩ | ⟨bit', n, k, hmask, hheld⟩
  · exact .inl ((hpressed item hitem hgen).1 hdown)
  · obtain rfl := bitMask_inj hbit hmask
    refine (hheld.buttons item hitem hgen hdown).imp_right fun ⟨hn, hlock, hbutton⟩ => ?_
    refine ⟨k, ?_, hheld.key, hheld.on hn, hlock, hbutton⟩
    rw [hheld.range]
    exact List.mem_replicate.2 ⟨Nat.ne_of_gt hn, rfl⟩

/-- A modifier that is switched on is held by one more copy of its key, if it is held by copies of
it. -/
theorem Kept.heldBy_on {n : ℕ} (hstart : Start K s₀ down m) (hs : Kept K s₀ down m s)
    (hk : K.UsedFor m bit k) (hmay : K.MaySwitch s₀ m bit true)
    (hcopies : s.activeModifiers.equalRange (bitMask bit) = List.replicate n k) :
    HeldBy K s₀ down m (K.addKeystrokes (switchType true) k s) bit (n + 1) k where
  key := hk
  may := ⟨true, hmay⟩
  range := by
    have hgen := (hk.generates_eq hstart.plain).2
    rw [equalRange_switch, if_pos hgen.symm, if_pos rfl, hgen, hcopies, List.replicate_succ']
  on := fun _ => hmay
  off := hmay.wrong.switched_off hstart.plain (Nat.lt_trans hk.1 (by decide))
  buttons := by
    intro item hitem hgen hdown
    rw [switchType, if_pos rfl, pressed_modify (hstart.plain.duplex _)] at hdown
    by_cases hkey : k.lock = false ∧ item.button = k.button
    · exact .inr ⟨n.succ_pos, hkey⟩
    · have hbefore : item.button ∈ s.pressed down := by
        cases hlock : k.lock with
        | true =>
          rw [if_pos hlock] at hdown
          exact hdown.2
        | false =>
          rw [if_neg (by simp [hlock])] at hdown
          exact hdown.resolve_left fun hbutton => hkey ⟨hlock, hbutton⟩
      have hbit : bit < 32 := Nat.lt_trans hk.1 (by decide)
      refine (hs.down_or_held hbit hitem hgen hbefore).imp_right ?_
      rintro ⟨k', hk', -, -, hlock, hbutton⟩
      rw [hcopies] at hk'
      obtain rfl := List.eq_of_mem_replicate hk'
      exact ⟨n.succ_pos, hlock, hbutton⟩
  pressed := by
    intro _
    rw [switchType, if_pos rfl, pressed_modify (hstart.plain.duplex _)]
    cases k.lock <;> simp

/-- A modifier that is switched off is held by nothing. -/
theorem Kept.heldBy_off (hstart : Start K s₀ down m) (hs : Kept K s₀ down m s)
    (hk : K.UsedFor m bit k) (hmay : K.MaySwitch s₀ m bit false) :
    HeldBy K s₀ down m (K.addKeystrokes (switchType false) k s) bit 0 k where
  key := hk
  may := ⟨false, hmay⟩
  range := by
    rw [equalRange_switch, if_pos (hk.generates_eq hstart.plain).2.symm]
    rfl
  on := fun h => absurd h (Nat.lt_irrefl 0)
  off := fun _ => hmay
  buttons := by
    intro item hitem hgen hdown
    rw [switchType, if_neg Bool.false_ne_true, pressed_unmodify (hstart.plain.duplex _)] at hdown
    have hbit : bit < 32 := Nat.lt_trans hk.1 (by decide)
    refine .inl ((hs.down_or_held hbit hitem hgen hdown.2).resolve_right ?_)
    -- A key that is no lock and was switched on is released: the key that is used now is no lock.
    rintro ⟨k', hk', hused, hon, hlock, hbutton⟩
    have hlock' := (hstart.locks.used bit k' k hon hmay hused hk).symm.trans hlock
    have hreleased := hdown.1
    rw [if_neg (by simp [hlock']), (hk.generates_eq hstart.plain).2] at hreleased
    exact hreleased k' hk' hbutton.symm
  pressed := fun h => absurd h (Nat.lt_irrefl 0)

/-- What is held by a key stays so when another modifier is switched. -/
theorem HeldBy.of_same {n : ℕ} (h : HeldBy K s₀ down m s bit n k) (hplain : Plain K s₀)
    (hrange : s'.activeModifiers.equalRange (bitMask bit) =
      s.activeModifiers.equalRange (bitMask bit))
    (hpressed : ∀ item, K.IsModifier s₀ item → item.generates = bitMask bit →
      (item.button ∈ s'.pressed down ↔ item.button ∈ s.pressed down)) :
    HeldBy K s₀ down m s' bit n k where
  key := h.key
  may := h.may
  range := hrange.trans h.range
  on := h.on
  off := h.off
  buttons := fun item hitem hgen hdown =>
    h.buttons item hitem hgen ((hpressed item hitem hgen).1 hdown)
  pressed := fun hn => by
    obtain ⟨hmod, hgen⟩ := h.key.generates_eq hplain
    rw [hpressed k hmod hgen]
    exact h.pressed hn

/-- A switched modifier is held by its key alone, or not at all, and the others as before. -/
theorem Kept.switch (hstart : Start K s₀ down m) (hs : Kept K s₀ down m s)
    (hk : K.UsedFor m bit k) (hmay : K.MaySwitch s₀ m bit on)
    (hcopies : on = true →
      ∃ n, s.activeModifiers.equalRange (bitMask bit) = List.replicate n k) :
    Kept K s₀ down m (K.addKeystrokes (switchType on) k s) where
  toSound := hs.toSound.switch hstart.plain (hk.generates_eq hstart.plain).1
  expected := by
    intro c
    rw [getLsbD_switch]
    by_cases hc : k.generates.getLsbD c = true
    · rw [if_pos hc]
      rw [(hk.generates_eq hstart.plain).2, getLsbD_bitMask] at hc
      exact .switched ((of_decide_eq_true hc).2 ▸ hmay)
    · rw [if_neg hc]
      exact hs.expected c
  mods := by
    intro mask
    obtain ⟨hmod, hkgen⟩ := hk.generates_eq hstart.plain
    by_cases hmask : mask = bitMask bit
    · refine .inr ?_
      cases on with
      | true =>
        obtain ⟨n, hn⟩ := hcopies rfl
        exact ⟨bit, n + 1, k, hmask, hs.heldBy_on hstart hk hmay hn⟩
      | false => exact ⟨bit, 0, k, hmask, hs.heldBy_off hstart hk hmay⟩
    · have hrange : (K.addKeystrokes (switchType on) k s).activeModifiers.equalRange mask =
          s.activeModifiers.equalRange mask := by
        rw [equalRange_switch, if_neg (hkgen ▸ hmask)]
      have hsame : ∀ item, K.IsModifier s₀ item → item.generates = mask →
          (item.button ∈ (K.addKeystrokes (switchType on) k s).pressed down ↔
            item.button ∈ s.pressed down) := by
        intro item hitem hgen
        refine pressed_switch_of_ne hstart.plain hs.toSound hmod fun j hj hjgen hbutton => hmask ?_
        rw [← hgen, ← hkgen, ← hjgen]
        exact hstart.plain.button item j hitem hj hbutton.symm
      rcases hs.mods mask with ⟨hrange₀, hpressed⟩ | ⟨bit', n, k', hmask', hheld⟩
      · refine .inl ⟨hrange.trans hrange₀, fun item hitem hgen => ?_⟩
        rw [hsame item hitem hgen, hpressed item hitem hgen]
      · subst hmask'
        exact .inr ⟨bit', n, k', rfl, hheld.of_same hstart.plain hrange hsame⟩

section Calls

variable (K : KeyMap) (s₀ : Synthesis) (down : Finset KeyButton) (m : Mapping)

/-- The modifier is held by the key that is used for it, perhaps several times, or not at all. -/
def HeldByKey (button : KeyButton) (group : ℕ) (s : Synthesis) (bit : ℕ) : Prop :=
  ∀ k, K.keyForModifier button group bit = some k →
    ∃ n, s.activeModifiers.equalRange (bitMask bit) = List.replicate n k

/-- The button is not one of a modifier. -/
def NotModifier (b : KeyButton) : Prop := ∀ j, K.IsModifier s₀ j → j.button ≠ b

/-- What one call to switch modifiers does. -/
structure Adjusts (button : KeyButton) (group : ℕ) (s s' : Synthesis) : Prop where
  kept : Kept K s₀ down m s'
  heldByKey : ∀ bit, HeldByKey K button group s bit → HeldByKey K button group s' bit
  others : ∀ b, NotModifier K s₀ b → (b ∈ s'.pressed down ↔ b ∈ s.pressed down)

end Calls

theorem Adjusts.trans {s₁ : Synthesis} (h : Adjusts K s₀ down m button group s s₁)
    (h' : Adjusts K s₀ down m button group s₁ s') :
    Adjusts K s₀ down m button group s s' where
  kept := h'.kept
  heldByKey := fun bit hbit => h'.heldByKey bit (h.heldByKey bit hbit)
  others := fun b hb => (h'.others b hb).trans (h.others b hb)

/-- A turn of the loop. -/
theorem Adjusts.switch (on : Bool) (hstart : Start K s₀ down m) (hs : Kept K s₀ down m s)
    (hkey : K.keyForModifier button group bit = some k) (hk : K.UsedFor m bit k)
    (hmay : K.MaySwitch s₀ m bit on) (hheld : on = true → HeldByKey K button group s bit) :
    Adjusts K s₀ down m button group s (K.addKeystrokes (switchType on) k s) := by
  obtain ⟨hmod, hgen⟩ := hk.generates_eq hstart.plain
  refine ⟨hs.switch hstart hk hmay fun h => hheld h k hkey, fun bit' hbit' k' hkey' => ?_,
    fun b hb => ?_⟩
  · obtain ⟨n, hn⟩ := hbit' k' hkey'
    rw [equalRange_switch]
    by_cases hmask : bitMask bit' = k.generates
    · -- the modifier that is switched
      obtain rfl := bitMask_inj (Nat.lt_trans hk.1 (by decide)) (hgen.symm.trans hmask.symm)
      obtain rfl := Option.some.inj (hkey.symm.trans hkey')
      rw [if_pos hmask, ← hmask, hn]
      cases on with
      | true => exact ⟨n + 1, List.replicate_succ'.symm⟩
      | false => exact ⟨0, rfl⟩
    · rw [if_neg hmask]
      exact ⟨n, hn⟩
  · exact pressed_switch_of_ne hstart.plain hs.toSound hmod fun j hj _ => hb j hj

/-- The loop that switches modifiers, where it may switch them for an item, and where those that it
switches on are held by their keys alone. -/
theorem Switches.adjusts {n : ℕ} {required flip notRequired : KeyModifierMask}
    (hstart : Start K s₀ down m) (hitem : item ∈ m.items)
    (h : Switches K item.button item.group notRequired n required flip s s')
    (hn : n ≤ keyModifierNumBits) (hs : Kept K s₀ down m s)
    (hmay : ∀ bit < n, flip.getLsbD bit = true → K.MaySwitch s₀ m bit (required.getLsbD bit))
    (hheld : ∀ bit < n, flip.getLsbD bit = true → required.getLsbD bit = true →
      HeldByKey K item.button item.group s bit) :
    Adjusts K s₀ down m item.button item.group s s' := by
  induction h with
  | done => exact ⟨hs, fun _ hbit => hbit, fun _ _ => Iff.rfl⟩
  | skip _ _ ih =>
    exact ih (Nat.le_of_succ_le hn) hs (fun bit hbit => hmay bit (Nat.lt_succ_of_lt hbit))
      fun bit hbit => hheld bit (Nat.lt_succ_of_lt hbit)
  | @on bit _ _ k s s₁ _ hflip hon hkey _ _ _ ihneeded ihrest =>
    have hbit : bit < 32 := Nat.lt_trans (Nat.lt_of_succ_le hn) (by decide)
    have hk : K.UsedFor m bit k := ⟨Nat.lt_of_succ_le hn, item, hitem, hkey⟩
    have hturn := hon ▸ hmay bit bit.lt_succ_self hflip
    -- The key that needs other modifiers on finds them off, so nothing holds them.
    have hneeded := ihneeded (Nat.le_of_succ_le hn) hs
      (fun c _ hflip' => hturn.needs hk (hs.expected c) hflip')
      fun c hc hflip' hon' k' _ => ⟨0, hs.toSound.range_of_off (Nat.lt_trans hc hbit)
        (off_of_flipMask hflip' hon')⟩
    have hbefore := hheld bit bit.lt_succ_self hflip hon
    have hswitch := hneeded.trans (.switch true hstart hneeded.kept hkey hk hturn fun _ =>
      hneeded.heldByKey bit hbefore)
    exact hswitch.trans (ihrest (Nat.le_of_succ_le hn) hswitch.kept
      (fun c hc => hmay c (Nat.lt_succ_of_lt hc)) fun c hc hflip' hon' =>
        hswitch.heldByKey c (hheld c (Nat.lt_succ_of_lt hc) hflip' hon'))
  | @off bit _ _ k s _ hflip hoff hkey _ _ ihrest =>
    have hk : K.UsedFor m bit k := ⟨Nat.lt_of_succ_le hn, item, hitem, hkey⟩
    have hturn := hoff ▸ hmay bit bit.lt_succ_self hflip
    have hswitch : Adjusts K s₀ down m item.button item.group s
        (K.addKeystrokes .unmodify k s) :=
      .switch false hstart hs hkey hk hturn fun h => absurd h Bool.false_ne_true
    exact hswitch.trans (ihrest (Nat.le_of_succ_le hn) hswitch.kept
      (fun c hc => hmay c (Nat.lt_succ_of_lt hc)) fun c hc hflip' hon' =>
        hswitch.heldByKey c (hheld c (Nat.lt_succ_of_lt hc) hflip' hon'))

/-- A call that works, for modifiers that may be switched, keeps what holds while modifiers are
switched. -/
theorem keysForModifierState_kept {required sensitive notRequired : KeyModifierMask}
    (hstart : Start K s₀ down m) (hitem : item ∈ m.items)
    (h : K.keysForModifierState item.button item.group required sensitive notRequired s =
      (true, s'))
    (hs : Kept K s₀ down m s)
    (hmay : ∀ bit, sensitive.getLsbD bit = true → notRequired.getLsbD bit = false →
      K.MayBe s₀ m bit (!required.getLsbD bit) → K.MaySwitch s₀ m bit (required.getLsbD bit)) :
    Kept K s₀ down m s' ∧
      ∀ b, NotModifier K s₀ b → (b ∈ s'.pressed down ↔ b ∈ s.pressed down) := by
  have hadjusts := (keysForModifierState_switches h).adjusts hstart hitem (Nat.le_refl _) hs
    (fun bit _ hflip => by
      obtain ⟨hne, hsens, hnot⟩ := getLsbD_flipMask.1 hflip
      have hwrong := hs.expected bit
      rw [Bool.eq_not.2 hne] at hwrong
      exact hmay bit hsens hnot hwrong)
    fun bit hbit hflip hon k _ => ⟨0, hs.toSound.range_of_off (Nat.lt_trans hbit (by decide))
      (off_of_flipMask hflip hon)⟩
  exact ⟨hadjusts.kept, hadjusts.others⟩

end KeyMap

end InputLeap
