import InputLeap.Keyboard.KeyMap

/-!
# The modifiers that a key needs

`keysForModifierState` promises that the modifiers of a mask are as they should be. It settles
which modifiers to switch once, at its beginning, and it switches them one after another. A key
that it uses for a modifier may itself need other modifiers, or generate others, so switching a
modifier can change one that was right.

## Main definitions

* `KeyMap.keysToSwitch` : the keys that are switched for some modifiers, with those that they need.
* `KeyMap.lastSwitch` : how the last of some keys that generates a modifier is switched.
* `KeyMap.Flips`, `KeyMap.Settles` : a modifier is switched, and what its key then makes of
  another.
* `KeyMap.MayHold`, `KeyMap.Turned` : what may happen on the way, for a key that needs others.
* `KeyMap.LastRight` : whatever may go wrong with a modifier is put right later.

## Main results

* `KeyMap.Switches.currentState_eq` : the keys that are switched decide the modifiers.
* `KeyMap.Switches.last_change` : the last key that settles a modifier, or something that may
  come after it, decides.
* `KeyMap.keysForModifierState_matches` : when the modifiers are as they should be.
-/

namespace InputLeap

namespace KeyMap

/-- The modifiers after some keys are switched on or off, one after another. -/
def switchKeys (mask : KeyModifierMask) (keys : List (KeyItem × Bool)) : KeyModifierMask :=
  keys.foldl switchKey mask

/-- How the last of the keys that generate a modifier is switched. -/
def lastSwitch (c : ℕ) (keys : List (KeyItem × Bool)) : Option Bool :=
  (keys.filterMap fun key => if key.1.generates.getLsbD c then some key.2 else none).getLast?

section Definitions

variable (K : KeyMap) (button : KeyButton) (group : ℕ)
variable (currentState required sensitive notRequired : KeyModifierMask)

/-- The keys that are switched on and off for the modifiers of `flip` below a bit, in their order.
Before a key that is switched on, in the same way, the keys of the modifiers that it needs and that
are wrong then. -/
def keysToSwitch : ℕ → KeyModifierMask → KeyModifierMask → KeyModifierMask → List (KeyItem × Bool)
  | 0, _, _, _ => []
  | bit + 1, needed, flip, cur =>
    if flip.getLsbD bit = false then keysToSwitch bit needed flip cur
    else
      match K.keyForModifier button group bit with
      | none => []
      | some item =>
        let before :=
          if needed.getLsbD bit then
            keysToSwitch bit item.required
              (flipMask cur item.required (item.sensitiveBut bit) notRequired) cur
          else []
        let keys := before ++ [(item, needed.getLsbD bit)]
        keys ++ keysToSwitch bit needed flip (switchKeys cur keys)

/-- The call switches the modifier last to what it should be, or the modifier is so from the start
and no key that is switched generates it. -/
def LastSwitchedRight (c : ℕ) : Prop :=
  (lastSwitch c (keysToSwitch K button group notRequired keyModifierNumBits required
    (flipMask currentState required sensitive notRequired) currentState)).getD
      (currentState.getLsbD c) = required.getLsbD c

instance (c : ℕ) : Decidable
    (LastSwitchedRight K button group currentState required sensitive notRequired c) :=
  inferInstanceAs (Decidable (_ = _))

/-- The modifier is one that the call has to match. -/
def Asked (c : ℕ) : Prop := sensitive.getLsbD c = true ∧ notRequired.getLsbD c = false

/-- The loop of the call switches the modifier. -/
def Flips (bit : ℕ) : Prop :=
  bit < keyModifierNumBits ∧
    (flipMask currentState required sensitive notRequired).getLsbD bit = true

/-- When the loop has switched `bit`, the modifier `c` is at `v`: it is one of those that the key
of `bit` generates, or one that the key is sensitive to. -/
def Settles (bit c : ℕ) (v : Bool) : Prop :=
  ∃ item, K.keyForModifier button group bit = some item ∧
    if item.generates.getLsbD c then required.getLsbD bit = v
    else item.sensitive.getLsbD c = true ∧ item.required.getLsbD c = v

mutual

/-- While the loop switches `turn`, or before, the modifier may be at the value. -/
inductive MayHold : ℕ → ℕ → Bool → Prop
  | start {turn c v} (h : currentState.getLsbD c = v) : MayHold turn c v
  | generated {turn turn' bit c on item} (hle : turn ≤ turn') (h : Turned turn' bit on)
      (hkey : K.keyForModifier button group bit = some item)
      (hgen : item.generates.getLsbD c = true) : MayHold turn c on

/-- While the loop switches `turn`, the modifier `bit` may be switched on or off. -/
inductive Turned : ℕ → ℕ → Bool → Prop
  | asked {turn} (h : Flips currentState required sensitive notRequired turn) :
      Turned turn turn (required.getLsbD turn)
  | needed {turn bit c item} (h : Turned turn bit true)
      (hkey : K.keyForModifier button group bit = some item)
      (hsens : (item.sensitiveBut bit).getLsbD c = true) (hnot : notRequired.getLsbD c = false)
      (hwrong : MayHold turn c (!item.required.getLsbD c)) :
      Turned turn c (item.required.getLsbD c)

end

/-- While the loop switches `bit`, a key that is used for another modifier on the way may put
`c` at `v`, and the key of `bit` does not care. -/
def Spills (bit c : ℕ) (v : Bool) : Prop :=
  ∃ item, K.keyForModifier button group bit = some item ∧
    item.generates.getLsbD c = false ∧ item.sensitive.getLsbD c = false ∧
    ∃ bit' item', Turned K button group currentState required sensitive notRequired bit bit' v ∧
      K.keyForModifier button group bit' = some item' ∧ item'.generates.getLsbD c = true

/-- A modifier that is wrong at first is put right by a key of the loop, and whenever the loop may
leave it wrong, a later key puts it right. -/
def LastRight (c : ℕ) : Prop :=
  (currentState.getLsbD c ≠ required.getLsbD c →
    ∃ bit, Flips currentState required sensitive notRequired bit ∧
      Settles K button group required bit c (required.getLsbD c)) ∧
  ∀ bit, Flips currentState required sensitive notRequired bit →
    Settles K button group required bit c (!required.getLsbD c) ∨
      Spills K button group currentState required sensitive notRequired bit c
        (!required.getLsbD c) →
    ∃ bit' < bit, Flips currentState required sensitive notRequired bit' ∧
      Settles K button group required bit' c (required.getLsbD c)

end Definitions

variable {K : KeyMap} {button : KeyButton} {group bit turn c n : ℕ} {v v' : Bool}
variable {s s' : Synthesis} {cur required needed sensitive notRequired flip : KeyModifierMask}

/-! ### The keys that are switched -/

theorem switchKeys_append {mask : KeyModifierMask} {keys keys' : List (KeyItem × Bool)} :
    switchKeys mask (keys ++ keys') = switchKeys (switchKeys mask keys) keys' :=
  List.foldl_append

/-- A modifier is as the last of the keys that generate it was switched. -/
theorem getLsbD_switchKeys {mask : KeyModifierMask} {keys : List (KeyItem × Bool)} :
    (switchKeys mask keys).getLsbD c = (lastSwitch c keys).getD (mask.getLsbD c) := by
  induction keys generalizing mask with
  | nil => rfl
  | cons key keys ih =>
    have hrest : (switchKeys mask (key :: keys)).getLsbD c =
        (lastSwitch c keys).getD ((switchKey mask key).getLsbD c) := ih
    rw [hrest, getLsbD_switchKey, lastSwitch, lastSwitch, List.filterMap_cons]
    by_cases hgen : key.1.generates.getLsbD c = true
    · simp only [if_pos hgen, List.getLast?_cons, Option.getD_some]
    · simp only [if_neg hgen]

/-- The modifiers after the turns of a loop are those after the keys that it switches. -/
theorem Switches.currentState_eq (h : Switches K button group notRequired n needed flip s s') :
    s'.currentState = switchKeys s.currentState
      (keysToSwitch K button group notRequired n needed flip s.currentState) := by
  induction h with
  | done => rfl
  | skip hflip _ ih =>
    rw [keysToSwitch, if_pos hflip]
    exact ih
  | @on bit needed _ item s s₁ _ hflip hon hkey _ _ _ ihneeded ihrest =>
    rw [keysToSwitch, if_neg (by simp [hflip]), hkey]
    simp only [hon, if_true]
    have hstate : (K.addKeystrokes .modify item s₁).currentState =
        switchKeys s.currentState (keysToSwitch K button group notRequired bit item.required
          (flipMask s.currentState item.required (item.sensitiveBut bit) notRequired)
          s.currentState ++ [(item, true)]) := by
      rw [switchKeys_append, ← ihneeded]
      rfl
    rw [switchKeys_append, ← hstate]
    exact ihrest
  | @off bit needed _ item s _ hflip hoff hkey _ _ ihrest =>
    rw [keysToSwitch, if_neg (by simp [hflip]), hkey]
    simp only [hoff, Bool.false_eq_true, if_false, List.nil_append]
    rw [switchKeys_append]
    exact ihrest

/-- A modifier is as it was asked for exactly if the last key that is switched for it has it
so. -/
theorem keysForModifierState_currentState
    (h : K.keysForModifierState button group required sensitive notRequired s = (true, s'))
    (c : ℕ) :
    s'.currentState.getLsbD c = required.getLsbD c ↔
      LastSwitchedRight K button group s.currentState required sensitive notRequired c := by
  rw [(keysForModifierState_switches h).currentState_eq, getLsbD_switchKeys]
  rfl

/-! ### What may go wrong -/

theorem Settles.unique (h : Settles K button group required bit c v)
    (h' : Settles K button group required bit c v') : v = v' := by
  obtain ⟨item, hkey, h⟩ := h
  obtain ⟨item', hkey', h'⟩ := h'
  obtain rfl : item = item' := Option.some.inj (hkey.symm.trans hkey')
  by_cases hgen : item.generates.getLsbD c = true
  · rw [if_pos hgen] at h h'
    exact h.symm.trans h'
  · rw [if_neg hgen] at h h'
    exact h.2.symm.trans h'.2

section Nested

variable (K : KeyMap) (button : KeyButton) (group : ℕ)
variable (cur required sensitive notRequired : KeyModifierMask) (turn : ℕ)

/-- The modifiers of a state are at values that they may have at a turn. -/
def Expected (s : Synthesis) : Prop :=
  ∀ c, MayHold K button group cur required sensitive notRequired turn c
    (s.currentState.getLsbD c)

/-- What differs between two states was set by keys that may be switched at a turn. -/
def SetByTurned (s s' : Synthesis) : Prop :=
  ∀ c, s'.currentState.getLsbD c = s.currentState.getLsbD c ∨
    ∃ bit item, Turned K button group cur required sensitive notRequired turn bit
        (s'.currentState.getLsbD c) ∧
      K.keyForModifier button group bit = some item ∧ item.generates.getLsbD c = true

end Nested

theorem SetByTurned.trans {s₁ : Synthesis}
    (h : SetByTurned K button group cur required sensitive notRequired turn s s₁)
    (h' : SetByTurned K button group cur required sensitive notRequired turn s₁ s') :
    SetByTurned K button group cur required sensitive notRequired turn s s' := by
  intro c
  rcases h' c with heq | hset
  · rw [heq]
    exact h c
  · exact .inr hset

/-- What is set by keys that may be switched is at a value that it may have. -/
theorem SetByTurned.expected {turn' : ℕ}
    (h : SetByTurned K button group cur required sensitive notRequired turn s s')
    (hle : turn' ≤ turn)
    (hs : Expected K button group cur required sensitive notRequired turn' s) :
    Expected K button group cur required sensitive notRequired turn' s' := by
  intro c
  rcases h c with heq | ⟨bit, item, hturned, hkey, hgen⟩
  · rw [heq]
    exact hs c
  · exact .generated hle hturned hkey hgen

theorem Turned.switch {on : Bool} {item : KeyItem}
    (h : Turned K button group cur required sensitive notRequired turn bit on)
    (hkey : K.keyForModifier button group bit = some item) :
    SetByTurned K button group cur required sensitive notRequired turn s
      (K.addKeystrokes (switchType on) item s) := by
  intro c
  rw [getLsbD_switch]
  by_cases hgen : item.generates.getLsbD c = true
  · rw [if_pos hgen]
    exact .inr ⟨bit, item, h, hkey, hgen⟩
  · rw [if_neg hgen]
    exact .inl rfl

/-- A key that is switched on may switch those of the modifiers that it needs and that are
wrong. -/
theorem Turned.needs {item : KeyItem}
    (h : Turned K button group cur required sensitive notRequired turn bit true)
    (hkey : K.keyForModifier button group bit = some item)
    (hs : Expected K button group cur required sensitive notRequired turn s)
    (hflip : (flipMask s.currentState item.required (item.sensitiveBut bit)
      notRequired).getLsbD c = true) :
    Turned K button group cur required sensitive notRequired turn c
      (item.required.getLsbD c) := by
  obtain ⟨hne, hsens, hnot⟩ := getLsbD_flipMask.1 hflip
  have hwrong := hs c
  rw [Bool.eq_not.2 hne] at hwrong
  exact .needed h hkey hsens hnot hwrong

/-- A loop that switches modifiers that may be switched, whether of the call or of a call for the
modifiers that a key needs. -/
theorem Switches.setByTurned (h : Switches K button group notRequired n needed flip s s')
    (hflip : ∀ bit < n, flip.getLsbD bit = true →
      Turned K button group cur required sensitive notRequired turn bit (needed.getLsbD bit))
    (hs : Expected K button group cur required sensitive notRequired turn s) :
    SetByTurned K button group cur required sensitive notRequired turn s s' := by
  induction h with
  | done => exact fun c => .inl rfl
  | skip _ _ ih => exact ih (fun bit hb => hflip bit (Nat.lt_succ_of_lt hb)) hs
  | on hbit hon hkey _ _ _ ihneeded ihrest =>
    have hturned := hon ▸ hflip _ (Nat.lt_succ_self _) hbit
    have hset₁ := ihneeded (fun c _ hc => hturned.needs hkey hs hc) hs
    have hset₂ := hset₁.trans (hturned.switch hkey)
    have hs₂ := hset₂.expected (Nat.le_refl turn) hs
    exact hset₂.trans (ihrest (fun bit hb => hflip bit (Nat.lt_succ_of_lt hb)) hs₂)
  | @off bit _ _ item s s' hbit hoff hkey _ _ ihrest =>
    have hturned := hoff ▸ hflip _ (Nat.lt_succ_self _) hbit
    have hset₂ := hturned.switch (s := s) hkey
    have hs₂ := hset₂.expected (Nat.le_refl turn) hs
    exact hset₂.trans (ihrest (fun bit hb => hflip bit (Nat.lt_succ_of_lt hb)) hs₂)

/-! ### The loop of the call -/

/-- A turn that switches a modifier, on or off. -/
theorem Switches.exists_turn (h : Switches K button group notRequired (bit + 1) required
      (flipMask cur required sensitive notRequired) s s')
    (hflips : Flips cur required sensitive notRequired bit)
    (hs : Expected K button group cur required sensitive notRequired bit s) :
    ∃ item s₁, K.keyForModifier button group bit = some item ∧
      SetByTurned K button group cur required sensitive notRequired bit s
        (K.addKeystrokes (switchType (required.getLsbD bit)) item s₁) ∧
      s₁.currentState &&& item.sensitiveBut bit = item.required &&& item.sensitiveBut bit ∧
      Switches K button group notRequired bit required
        (flipMask cur required sensitive notRequired)
        (K.addKeystrokes (switchType (required.getLsbD bit)) item s₁) s' := by
  have hturned : Turned K button group cur required sensitive notRequired bit bit
      (required.getLsbD bit) := .asked hflips
  cases h with
  | skip hflip _ => exact absurd hflips.2 (Bool.eq_false_iff.1 hflip)
  | @on _ _ _ item _ s₁ _ _ hon hkey hneeded hcheck hrest =>
    have hset₁ := hneeded.setByTurned (fun c _ hc => (hon ▸ hturned).needs hkey hs hc) hs
    refine ⟨item, s₁, hkey, hset₁.trans (hturned.switch hkey), hcheck, ?_⟩
    rw [hon]
    exact hrest
  | @off _ _ _ item _ _ _ hoff hkey hcheck hrest =>
    refine ⟨item, s, hkey, hturned.switch hkey, hcheck, ?_⟩
    rw [hoff]
    exact hrest

/-- One turn of the loop: its key settles the modifier, or the modifier is as before, or something
on the way changed it. -/
theorem turn_change {s₁ : Synthesis} {item : KeyItem}
    (hkey : K.keyForModifier button group bit = some item)
    (hset : SetByTurned K button group cur required sensitive notRequired bit s
      (K.addKeystrokes (switchType (required.getLsbD bit)) item s₁))
    (hcheck : s₁.currentState &&& item.sensitiveBut bit =
      item.required &&& item.sensitiveBut bit) (c : ℕ) :
    let after := K.addKeystrokes (switchType (required.getLsbD bit)) item s₁
    Settles K button group required bit c (after.currentState.getLsbD c) ∨
      (∀ v, ¬Settles K button group required bit c v) ∧
        (after.currentState.getLsbD c = s.currentState.getLsbD c ∨
          Spills K button group cur required sensitive notRequired bit c
            (after.currentState.getLsbD c)) := by
  intro after
  by_cases hgen : item.generates.getLsbD c = true
  · refine .inl ⟨item, hkey, ?_⟩
    rw [if_pos hgen, getLsbD_switch, if_pos hgen]
  have hafter : after.currentState.getLsbD c = s₁.currentState.getLsbD c := by
    rw [getLsbD_switch, if_neg hgen]
  by_cases hsens : item.sensitive.getLsbD c = true
  · -- The check has seen the modifier as the key needs it.
    have hne : c ≠ bit := fun h => hgen (h ▸ generates_of_keyForModifier hkey)
    have hbit := congrArg (BitVec.getLsbD · c) hcheck
    simp only [BitVec.getLsbD_and, getLsbD_sensitiveBut.2 ⟨hsens, hne⟩, Bool.and_true] at hbit
    refine .inl ⟨item, hkey, ?_⟩
    rw [if_neg hgen, hafter]
    exact ⟨hsens, hbit.symm⟩
  · -- The key has nothing to do with the modifier: keys switched for it may.
    refine .inr ⟨?_, ?_⟩
    · rintro v ⟨item', hkey', hsettles⟩
      obtain rfl := Option.some.inj (hkey.symm.trans hkey')
      rw [if_neg hgen] at hsettles
      exact hsens hsettles.1
    · rcases hset c with heq | ⟨bit', item', hturned, hkey', hgen'⟩
      · exact .inl heq
      · exact .inr ⟨item, hkey, Bool.eq_false_iff.2 hgen, Bool.eq_false_iff.2 hsens, bit', item',
          hturned, hkey', hgen'⟩

/-- After the loop, a modifier is as before it and none of its keys settles it, or the last key
that settles it, or something that may come after that, has decided. -/
theorem Switches.last_change
    (h : Switches K button group notRequired n required
      (flipMask cur required sensitive notRequired) s s')
    (hn : n ≤ keyModifierNumBits)
    (hs : ∀ turn < n, Expected K button group cur required sensitive notRequired turn s) (c : ℕ) :
    (s'.currentState.getLsbD c = s.currentState.getLsbD c ∧
      ∀ bit < n, Flips cur required sensitive notRequired bit →
        ∀ v, ¬Settles K button group required bit c v) ∨
    ∃ bit < n, Flips cur required sensitive notRequired bit ∧
      (Settles K button group required bit c (s'.currentState.getLsbD c) ∨
        Spills K button group cur required sensitive notRequired bit c
          (s'.currentState.getLsbD c)) ∧
      ∀ bit' < bit, Flips cur required sensitive notRequired bit' →
        ∀ v, ¬Settles K button group required bit' c v := by
  induction n generalizing s with
  | zero =>
    cases h
    exact .inl ⟨rfl, fun bit hbit => absurd hbit (Nat.not_lt_zero bit)⟩
  | succ bit ih =>
    have hlower : bit ≤ keyModifierNumBits := Nat.le_of_lt hn
    by_cases hflip : Flips cur required sensitive notRequired bit
    · obtain ⟨item, s₁, hkey, hset, hcheck, hrest⟩ := h.exists_turn hflip (hs bit bit.lt_succ_self)
      have hs₂ : ∀ turn < bit, Expected K button group cur required sensitive notRequired turn
          (K.addKeystrokes (switchType (required.getLsbD bit)) item s₁) := fun turn hturn =>
        hset.expected (Nat.le_of_lt hturn) (hs turn (Nat.lt_succ_of_lt hturn))
      -- A later turn has the last word; without one it is this turn that decides.
      rcases ih hrest hlower hs₂ with ⟨hsame, hnone⟩ | ⟨bit', hbit', hlast⟩
      · rw [hsame]
        rcases turn_change hkey hset hcheck c with hsettles | ⟨hnot, hsame' | hspills⟩
        · exact .inr ⟨bit, bit.lt_succ_self, hflip, .inl hsettles, hnone⟩
        · refine .inl ⟨hsame', fun bit' hbit' hflip' => ?_⟩
          rcases Nat.lt_succ_iff_lt_or_eq.1 hbit' with hlt | rfl
          · exact hnone bit' hlt hflip'
          · exact hnot
        · exact .inr ⟨bit, bit.lt_succ_self, hflip, .inr hspills, hnone⟩
      · exact .inr ⟨bit', Nat.lt_succ_of_lt hbit', hlast⟩
    · -- the modifier has no turn
      have hskip : Switches K button group notRequired bit required
          (flipMask cur required sensitive notRequired) s s' := by
        cases h with
        | skip _ hrest => exact hrest
        | on hbit => exact absurd ⟨hn, hbit⟩ hflip
        | off hbit => exact absurd ⟨hn, hbit⟩ hflip
      rcases ih hskip hlower (fun turn hturn => hs turn (Nat.lt_succ_of_lt hturn)) with
        ⟨hsame, hnone⟩ | ⟨bit', hbit', hlast⟩
      · refine .inl ⟨hsame, fun bit' hbit' hflip' => ?_⟩
        rcases Nat.lt_succ_iff_lt_or_eq.1 hbit' with hlt | rfl
        · exact hnone bit' hlt hflip'
        · exact absurd hflip' hflip
      · exact .inr ⟨bit', Nat.lt_succ_of_lt hbit', hlast⟩

/-- The loop of a call, from its beginning. -/
theorem keysForModifierState_last_change
    (h : K.keysForModifierState button group required sensitive notRequired s = (true, s'))
    (c : ℕ) :
    (s'.currentState.getLsbD c = s.currentState.getLsbD c ∧
      ∀ bit, Flips s.currentState required sensitive notRequired bit →
        ∀ v, ¬Settles K button group required bit c v) ∨
    ∃ bit, Flips s.currentState required sensitive notRequired bit ∧
      (Settles K button group required bit c (s'.currentState.getLsbD c) ∨
        Spills K button group s.currentState required sensitive notRequired bit c
          (s'.currentState.getLsbD c)) ∧
      ∀ bit' < bit, Flips s.currentState required sensitive notRequired bit' →
        ∀ v, ¬Settles K button group required bit' c v := by
  have hstart : ∀ turn < keyModifierNumBits,
      Expected K button group s.currentState required sensitive notRequired turn s :=
    fun turn _ c => .start rfl
  rcases (keysForModifierState_switches h).last_change (Nat.le_refl _) hstart c with
    ⟨hsame, hnone⟩ | ⟨bit, -, hlast⟩
  · exact .inl ⟨hsame, fun bit hflip => hnone bit hflip.1 hflip⟩
  · exact .inr ⟨bit, hlast⟩

/-- The modifiers are as they were asked for when for each of them whatever may go wrong on the way
is put right later. -/
theorem matches_of_lastRight
    (h : K.keysForModifierState button group required sensitive notRequired s = (true, s'))
    (hright : LastRight K button group s.currentState required sensitive notRequired c) :
    s'.currentState.getLsbD c = required.getLsbD c := by
  obtain ⟨hfirst, hlater⟩ := hright
  -- If the modifier were wrong, the last change would be wrong, and nothing puts it right.
  refine Decidable.byContradiction fun hne => ?_
  have hvalue := Bool.eq_not.2 hne
  rcases keysForModifierState_last_change h c with ⟨hsame, hnone⟩ | ⟨bit, hflip, hchange, hnone⟩
  · rw [hsame] at hne
    obtain ⟨bit, hflip, hsettles⟩ := hfirst hne
    exact hnone bit hflip _ hsettles
  · rw [hvalue] at hchange
    obtain ⟨bit', hlt, hflip', hsettles⟩ := hlater bit hflip hchange
    exact hnone bit' hlt hflip' _ hsettles

/-- Where no key that is used on the way changes modifiers that the key it is used for does not care
about, they are as asked for only then. -/
theorem lastRight_of_matches
    (h : K.keysForModifierState button group required sensitive notRequired s = (true, s'))
    (hspills : ∀ bit v, Flips s.currentState required sensitive notRequired bit →
      ¬Spills K button group s.currentState required sensitive notRequired bit c v)
    (hright : s'.currentState.getLsbD c = required.getLsbD c) :
    LastRight K button group s.currentState required sensitive notRequired c := by
  refine ⟨fun hwrong => ?_, fun bit hflip hwrong => ?_⟩
  · rcases keysForModifierState_last_change h c with ⟨hsame, -⟩ | ⟨bit, hflip, hchange, -⟩
    · exact absurd (hsame ▸ hright) hwrong
    · rw [hright] at hchange
      exact ⟨bit, hflip, hchange.resolve_right (hspills bit _ hflip)⟩
  · have hsettles := hwrong.resolve_right (hspills bit _ hflip)
    rcases keysForModifierState_last_change h c with ⟨-, hnone⟩ | ⟨bit', hflip', hchange, hnone⟩
    · exact absurd hsettles (hnone bit hflip _)
    · rw [hright] at hchange
      have hsettles' := hchange.resolve_right (hspills bit' _ hflip')
      refine ⟨bit', ?_, hflip', hsettles'⟩
      -- No key below the last one settles the modifier, and one key settles it in one way.
      rcases Nat.lt_trichotomy bit bit' with hlt | rfl | hlt
      · exact absurd hsettles (hnone bit hlt hflip _)
      · exact absurd (hsettles'.unique hsettles) (by simp)
      · exact hlt

/-- The button of Shift. -/
def shiftItem : KeyItem where
  id := 0xefe1
  group := 0
  button := 50
  required := 0
  sensitive := 0
  generates := 0x1
  dead := false
  lock := false
  client := 0

/-- The button of Alt, which is Meta together with Shift. -/
def metaItem : KeyItem where
  id := 0xefe7
  group := 0
  button := 64
  required := 0x1
  sensitive := 0x1
  generates := 0x8
  dead := false
  lock := false
  client := 0

/-- A keyboard with Shift, and with Meta on a key that needs Shift. -/
def metaNeedsShift : KeyMap where
  keyIDMap := .ofList
    [(0xefe1, [[KeyItemList.single shiftItem]]), (0xefe7, [[KeyItemList.single metaItem]])]
  numGroups := 1
  halfDuplex := ∅
  groups := by decide +kernel

theorem asked_nine (h : Asked 0x9 0 c) : c = 0 ∨ c = 3 := by
  have hmask : (0x9 : KeyModifierMask) = bitMask 0 ||| bitMask 3 := by decide
  have hc := h.1
  rw [hmask, BitVec.getLsbD_or, Bool.or_eq_true, getLsbD_bitMask, getLsbD_bitMask] at hc
  exact hc.imp (fun h => (of_decide_eq_true h).2.symm) fun h => (of_decide_eq_true h).2.symm

end KeyMap

end InputLeap
