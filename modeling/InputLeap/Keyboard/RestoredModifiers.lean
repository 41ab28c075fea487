import InputLeap.Keyboard.ModifierSwitching

/-!
# Switching modifiers back

When the key is pressed, `keysToRestoreModifiers` releases the keys of modifiers that are not
wanted and presses those that are missing. A modifier that was held by several keys, and was
switched meanwhile, is held by its key and by the others again. So the multimap is not what it was,
but the buttons in it are.

## Main results

* `KeyMap.addMissing_release`, `KeyMap.addMissing_press` : the two loops.
* `KeyMap.keysToRestoreModifiers_restores` : the modifiers are switched back.
-/

namespace InputLeap

namespace KeyMap

variable {K : KeyMap} {s₀ s s' : Synthesis} {item k : KeyItem} {mask : KeyModifierMask}
variable {b : KeyButton} {down : Finset KeyButton} {m : Mapping}

/-! ### Switching them back -/

theorem Plain.generates_ne_zero (hplain : Plain K s₀) (hk : K.IsModifier s₀ k) :
    k.generates ≠ 0 := by
  obtain ⟨bit, hbit, hgen⟩ := hplain.single k hk
  intro hzero
  have hon : (bitMask bit).getLsbD bit = true := getLsbD_bitMask.trans (decide_eq_true ⟨hbit, rfl⟩)
  rw [← hgen, hzero] at hon
  simp at hon

/-- A key of a modifier is released. -/
theorem releaseType_spec (down : Finset KeyButton) (hplain : Plain K s₀) (hs : Sound K s₀ s)
    (hk : K.IsModifier s₀ k) :
    let s' := K.addKeystrokes (releaseType k) k s
    Sound K s₀ s' ∧
      s'.activeModifiers = (if k.lock then s.activeModifiers.eraseKey k.generates
        else s.activeModifiers.eraseFirst k.generates fun j => j.button = k.button) ∧
      ∀ b, b ∈ s'.pressed down ↔ b ≠ k.button ∧ b ∈ s.pressed down := by
  have hgen := hplain.generates_ne_zero hk
  by_cases hlock : k.lock = true
  · rw [releaseType, if_pos hlock, if_pos hlock]
    refine ⟨hs.deactivate hplain hk (fun _ => Multimap.mem_eraseKey) rfl, rfl, fun b => ?_⟩
    rw [pressed_unmodify (hplain.duplex _), if_pos hlock]
  · have heq : K.addKeystrokes .release k s =
        let active := s.activeModifiers.eraseFirst k.generates fun j => j.button = k.button
        ⟨active,
          if active.equalRange k.generates = [] then s.currentState &&& ~~~k.generates
          else s.currentState,
          s.keystrokes ++ [.button k.button false false k.client]⟩ :=
      if_neg fun h => h.elim hgen hlock
    rw [releaseType, if_neg hlock, if_neg hlock, heq]
    refine ⟨hs.release hplain hk rfl rfl, rfl, fun b => ?_⟩
    rw [Synthesis.pressed, replay_append]
    exact mem_replay_release

/-- A key of a modifier is pressed. -/
theorem pressType_spec (down : Finset KeyButton) (hplain : Plain K s₀) (hs : Sound K s₀ s)
    (hk : K.IsModifier s₀ k) :
    let s' := K.addKeystrokes (pressType k) k s
    Sound K s₀ s' ∧
      s'.activeModifiers = s.activeModifiers.insert k.generates k ∧
      ∀ b, b ∈ s'.pressed down ↔
        if k.lock then b ≠ k.button ∧ b ∈ s.pressed down
        else b = k.button ∨ b ∈ s.pressed down := by
  have hgen := hplain.generates_ne_zero hk
  by_cases hlock : k.lock = true
  · rw [pressType, if_pos hlock]
    exact ⟨hs.activate hk rfl rfl, rfl, fun b => pressed_modify (hplain.duplex _)⟩
  · have heq : K.addKeystrokes .press k s =
        ⟨s.activeModifiers.insert k.generates k, s.currentState ||| k.generates,
          s.keystrokes ++ [.button k.button true false k.client]⟩ :=
      (if_neg hgen).trans (if_pos (.inl (Bool.eq_false_iff.2 hlock)))
    rw [pressType, if_neg hlock, heq]
    refine ⟨hs.activate hk rfl rfl, rfl, fun b => ?_⟩
    rw [if_neg hlock, Synthesis.pressed, replay_append]
    exact mem_replay_press

variable {active : ModifierToKeys} {buttons : List KeyButton}
variable {entries : List (KeyModifierMask × KeyItem)} {type : KeyItem → KeystrokeType}

/-- The first of the keys is synthesized if it is on none of the buttons, then the others. -/
theorem addMissing_cons {e : KeyModifierMask × KeyItem} (hne : e.2.button ≠ item.button) :
    K.addMissing type item buttons (e :: entries) s =
      K.addMissing type item buttons entries
        (if e.2.button ∉ buttons then K.addKeystrokes (type e.2) e.2 s else s) := by
  simp only [addMissing, List.foldl_cons, hne, ne_eq, not_false_eq_true, true_and]

/-- A step of the loop that releases keys: of a modifier whose key is not wanted, one key less is
held. -/
theorem length_releaseType (hplain : Plain K s₀) (hs : Sound K s₀ s) {e : KeyModifierMask × KeyItem}
    (hk : K.IsModifier s₀ e.2) (hkeyed : e.1 = e.2.generates)
    (hsame : ∀ j, (e.1, j) ∈ s.activeModifiers → j.button = e.2.button) :
    ((K.addKeystrokes (releaseType e.2) e.2 s).activeModifiers.equalRange e.1).length ≤
      (s.activeModifiers.equalRange e.1).length - 1 := by
  obtain ⟨-, hactive, -⟩ := releaseType_spec ∅ hplain hs hk
  rw [hactive, hkeyed]
  by_cases hlock : e.2.lock = true
  · rw [if_pos hlock, Multimap.equalRange_eraseKey, if_pos rfl]
    exact Nat.zero_le _
  · rw [if_neg hlock, Multimap.equalRange_eraseFirst, if_pos rfl]
    cases hrange : s.activeModifiers.equalRange e.2.generates with
    | nil => exact Nat.zero_le _
    | cons j js =>
      have hj : (e.1, j) ∈ s.activeModifiers := by
        rw [hkeyed, ← Multimap.mem_equalRange, hrange]
        exact List.mem_cons_self
      rw [List.eraseP_cons_of_pos (p := fun j : KeyItem => j.button = e.2.button)
        (decide_eq_true (hsame j hj))]
      exact Nat.le_refl _

/-- The other modifiers are held as before. -/
theorem mem_releaseType (hplain : Plain K s₀) (hs : Sound K s₀ s) (hk : K.IsModifier s₀ k)
    {e : KeyModifierMask × KeyItem} :
    let s' := K.addKeystrokes (releaseType k) k s
    (e ∈ s'.activeModifiers → e ∈ s.activeModifiers) ∧
      (e.1 ≠ k.generates → e ∈ s.activeModifiers → e ∈ s'.activeModifiers) := by
  obtain ⟨-, hactive, -⟩ := releaseType_spec ∅ hplain hs hk
  dsimp only
  rw [hactive]
  by_cases hlock : k.lock = true
  · rw [if_pos hlock, Multimap.mem_eraseKey]
    exact ⟨fun h => h.1, fun hne h => ⟨h, hne⟩⟩
  · rw [if_neg hlock]
    exact ⟨Multimap.mem_of_mem_eraseFirst, fun hne h =>
      (Multimap.mem_eraseFirst_of_not fun hand => hne hand.1).2 h⟩

theorem equalRange_releaseType (hplain : Plain K s₀) (hs : Sound K s₀ s)
    (hk : K.IsModifier s₀ k) (hne : mask ≠ k.generates) :
    (K.addKeystrokes (releaseType k) k s).activeModifiers.equalRange mask =
      s.activeModifiers.equalRange mask := by
  obtain ⟨-, hactive, -⟩ := releaseType_spec ∅ hplain hs hk
  rw [hactive]
  by_cases hlock : k.lock = true
  · rw [if_pos hlock, Multimap.equalRange_eraseKey, if_neg hne]
  · rw [if_neg hlock, Multimap.equalRange_eraseFirst, if_neg hne]

/-- The loop that releases keys leaves those on the given buttons, where each of the others comes
up in it as often as it is held. -/
theorem addMissing_release (down : Finset KeyButton) (hplain : Plain K s₀)
    (hnot : NotModifier K s₀ item.button)
    (hmodifier : ∀ e ∈ active, K.IsModifier s₀ e.2 ∧ e.1 = e.2.generates)
    (hunwanted : ∀ e ∈ active, e.2.button ∉ buttons → ∀ e' ∈ active, e'.1 = e.1 →
      e'.2.button = e.2.button)
    (hentries : ∀ e ∈ entries, e ∈ active) (hs : Sound K s₀ s)
    (hsub : ∀ e ∈ s.activeModifiers, e ∈ active)
    (hcount : ∀ e ∈ active, e.2.button ∉ buttons →
      (s.activeModifiers.equalRange e.1).length ≤ (entries.filter (·.1 = e.1)).length) :
    let s' := K.addMissing releaseType item buttons entries s
    Sound K s₀ s' ∧
      (∀ e, e ∈ s'.activeModifiers ↔ e ∈ s.activeModifiers ∧ e.2.button ∈ buttons) ∧
      ∀ b, b ∈ s'.pressed down ↔
        b ∈ s.pressed down ∧ ∀ e ∈ entries, e.2.button = b → b ∈ buttons := by
  induction entries generalizing s with
  | nil =>
    refine ⟨hs, fun e => ⟨fun he => ⟨he, ?_⟩, fun he => he.1⟩, fun b => ?_⟩
    · refine Decidable.byContradiction fun hb => ?_
      have hnone := hcount e (hsub e he) hb
      rw [List.filter_nil, List.length_nil, Nat.le_zero, List.length_eq_zero_iff] at hnone
      have hmem : e.2 ∈ s.activeModifiers.equalRange e.1 := Multimap.mem_equalRange.2 he
      rw [hnone] at hmem
      cases hmem
    · exact ⟨fun h => ⟨h, fun e he => absurd he List.not_mem_nil⟩, fun h => h.1⟩
  | cons e entries ih =>
    obtain ⟨he, hrest⟩ := List.forall_mem_cons.1 hentries
    obtain ⟨hk, hkeyed⟩ := hmodifier e he
    have hne : e.2.button ≠ item.button := hnot e.2 hk
    by_cases hb : e.2.button ∈ buttons
    · have hskip : K.addMissing releaseType item buttons (e :: entries) s =
          K.addMissing releaseType item buttons entries s := by
        rw [addMissing_cons hne, if_neg (not_not_intro hb)]
      have hcount' : ∀ e' ∈ active, e'.2.button ∉ buttons →
          (s.activeModifiers.equalRange e'.1).length ≤ (entries.filter (·.1 = e'.1)).length := by
        intro e' he' hb'
        have hmask : e.1 ≠ e'.1 := fun h => hb' (hunwanted e' he' hb' e he h ▸ hb)
        simpa [hmask] using hcount e' he' hb'
      obtain ⟨hs', hactive, hpressed⟩ := ih hrest hs hsub hcount'
      rw [hskip]
      refine ⟨hs', hactive, fun b => ?_⟩
      rw [hpressed b, List.forall_mem_cons]
      exact and_congr_right fun _ => (and_iff_right fun h => h ▸ hb).symm
    · have hstep : K.addMissing releaseType item buttons (e :: entries) s =
          K.addMissing releaseType item buttons entries
            (K.addKeystrokes (releaseType e.2) e.2 s) := by
        rw [addMissing_cons hne, if_pos hb]
      obtain ⟨hs₂, -, hpressed₂⟩ := releaseType_spec down hplain hs hk
      have hmem₂ := fun e' => mem_releaseType (e := e') hplain hs hk
      have hcount₂ : ∀ e' ∈ active, e'.2.button ∉ buttons →
          ((K.addKeystrokes (releaseType e.2) e.2 s).activeModifiers.equalRange e'.1).length ≤
            (entries.filter (·.1 = e'.1)).length := by
        intro e' he' hb'
        have hbefore := hcount e' he' hb'
        by_cases hmask : e.1 = e'.1
        · have hsame : ∀ j, (e.1, j) ∈ s.activeModifiers → j.button = e.2.button := fun j hj =>
            hunwanted e he hb (e.1, j) (hsub _ hj) rfl
          have hless := length_releaseType hplain hs hk hkeyed hsame
          rw [List.filter_cons, if_pos (decide_eq_true hmask), List.length_cons, ← hmask]
            at hbefore
          rw [← hmask]
          exact hless.trans (Nat.sub_le_of_le_add hbefore)
        · rw [equalRange_releaseType hplain hs hk fun h => hmask (hkeyed.trans h.symm)]
          simpa [hmask] using hbefore
      obtain ⟨hs', hactive, hpressed⟩ :=
        ih hrest hs₂ (fun e' he' => hsub e' ((hmem₂ e').1 he')) hcount₂
      rw [hstep]
      refine ⟨hs', fun e' => ?_, fun b => ?_⟩
      · rw [hactive e']
        refine ⟨fun h => ⟨(hmem₂ e').1 h.1, h.2⟩, fun h => ⟨(hmem₂ e').2 ?_ h.1, h.2⟩⟩
        -- What is wanted is of another modifier.
        intro hmask
        exact hb (hunwanted e he hb e' (hsub e' h.1) (hmask.trans hkeyed.symm) ▸ h.2)
      · rw [hpressed b, hpressed₂ b, List.forall_mem_cons]
        have hother : b ≠ e.2.button ↔ (e.2.button = b → b ∈ buttons) :=
          ⟨fun h h' => absurd h'.symm h, fun h h' => hb (h' ▸ h h'.symm)⟩
        rw [← hother]
        tauto

/-- The loop that presses keys adds those that are on none of the given buttons. Then the button
of such a key is down unless it is a lock, and the others are as before. -/
theorem addMissing_press (down : Finset KeyButton) (buttons : List KeyButton)
    (hplain : Plain K s₀) (hnot : NotModifier K s₀ item.button)
    (hentries : ∀ e ∈ entries, K.IsModifier s₀ e.2 ∧ e.1 = e.2.generates)
    (hlocks : ∀ e ∈ entries, e.2.button ∉ buttons → ∀ e' ∈ entries, e.2.button = e'.2.button →
      e.2.lock = e'.2.lock)
    (hs : Sound K s₀ s) :
    let s' := K.addMissing pressType item buttons entries s
    Sound K s₀ s' ∧
      (∀ e, e ∈ s'.activeModifiers ↔
        e ∈ s.activeModifiers ∨ e ∈ entries ∧ e.2.button ∉ buttons) ∧
      (∀ e ∈ entries, e.2.button ∉ buttons →
        (e.2.button ∈ s'.pressed down ↔ e.2.lock = false)) ∧
      ∀ b, (∀ e ∈ entries, e.2.button = b → b ∈ buttons) →
        (b ∈ s'.pressed down ↔ b ∈ s.pressed down) := by
  induction entries generalizing s with
  | nil =>
    refine ⟨hs, fun e => ?_, fun e he => absurd he List.not_mem_nil, fun b _ => Iff.rfl⟩
    exact ⟨.inl, fun h => h.resolve_right fun h => absurd h.1 List.not_mem_nil⟩
  | cons e entries ih =>
    obtain ⟨⟨hk, hkeyed⟩, hrest⟩ := List.forall_mem_cons.1 hentries
    have hlocks' : ∀ e ∈ entries, e.2.button ∉ buttons → ∀ e' ∈ entries,
        e.2.button = e'.2.button → e.2.lock = e'.2.lock := fun e he hb e' he' =>
      hlocks e (List.mem_cons_of_mem _ he) hb e' (List.mem_cons_of_mem _ he')
    have hne : e.2.button ≠ item.button := hnot e.2 hk
    by_cases hb : e.2.button ∈ buttons
    · have hskip : K.addMissing pressType item buttons (e :: entries) s =
          K.addMissing pressType item buttons entries s := by
        rw [addMissing_cons hne, if_neg (not_not_intro hb)]
      obtain ⟨hs', hactive, hadded, hothers⟩ := ih hrest hlocks' hs
      rw [hskip]
      refine ⟨hs', fun e' => ?_, ?_, fun b h => ?_⟩
      · rw [hactive e', List.mem_cons]
        refine or_congr_right ⟨fun h => ⟨.inr h.1, h.2⟩, fun h => ⟨?_, h.2⟩⟩
        exact h.1.resolve_left fun heq => h.2 (heq ▸ hb)
      · exact List.forall_mem_cons.2 ⟨fun h => absurd hb h, hadded⟩
      · exact hothers b (List.forall_mem_cons.1 h).2
    · have hstep : K.addMissing pressType item buttons (e :: entries) s =
          K.addMissing pressType item buttons entries
            (K.addKeystrokes (pressType e.2) e.2 s) := by
        rw [addMissing_cons hne, if_pos hb]
      obtain ⟨hs₂, hactive₂, hpressed₂⟩ := pressType_spec down hplain hs hk
      obtain ⟨hs', hactive, hadded, hothers⟩ := ih hrest hlocks' hs₂
      rw [hstep]
      refine ⟨hs', fun e' => ?_, List.forall_mem_cons.2 ⟨fun _ => ?_, hadded⟩, fun b h => ?_⟩
      · rw [hactive e', hactive₂, Multimap.mem_insert, List.mem_cons, ← hkeyed]
        constructor
        · rintro ((rfl | he') | ⟨he', hb'⟩)
          · exact .inr ⟨.inl rfl, hb⟩
          · exact .inl he'
          · exact .inr ⟨.inr he', hb'⟩
        · rintro (he' | ⟨rfl | he', hb'⟩)
          · exact .inl (.inr he')
          · exact .inl (.inl rfl)
          · exact .inr ⟨he', hb'⟩
      · -- The button counts as the last key on it left it; all of them are locks, or none is.
        by_cases hlater : ∃ e' ∈ entries, e'.2.button = e.2.button
        · obtain ⟨e', he', hbutton⟩ := hlater
          have hlock := hlocks e List.mem_cons_self hb e' (List.mem_cons_of_mem _ he') hbutton.symm
          rw [hlock, ← hbutton]
          exact hadded e' he' (hbutton ▸ hb)
        · rw [hothers _ fun e' he' heq => absurd ⟨e', he', heq⟩ hlater, hpressed₂]
          cases e.2.lock <;> simp
      · obtain ⟨hb', h⟩ := List.forall_mem_cons.1 h
        have hne' : b ≠ e.2.button := fun heq => hb (heq ▸ hb' heq.symm)
        rw [hothers b h, hpressed₂ b]
        cases e.2.lock <;> simp [hne']

theorem mem_collectButtons :
    b ∈ collectButtons active ↔ ∃ e ∈ active, e.2.button = b :=
  List.mem_map

/-- A key that is not wanted is the only one of its modifier. -/
theorem Kept.unwanted (hs : Kept K s₀ down m s) {e e' : KeyModifierMask × KeyItem}
    (he : e ∈ s.activeModifiers) (hb : e.2.button ∉ collectButtons s₀.activeModifiers)
    (he' : e' ∈ s.activeModifiers) (hmask : e'.1 = e.1) : e'.2.button = e.2.button := by
  have hmem := Multimap.mem_equalRange.2 he
  have hmem' : e'.2 ∈ s.activeModifiers.equalRange e.1 :=
    Multimap.mem_equalRange.2 (hmask ▸ he')
  rcases hs.mods e.1 with ⟨hrange, -⟩ | ⟨bit, n, k, hbit, hheld⟩
  · rw [hrange, Multimap.mem_equalRange] at hmem
    exact absurd (mem_collectButtons.2 ⟨e, hmem, rfl⟩) hb
  · rw [hbit, hheld.range] at hmem hmem'
    rw [List.eq_of_mem_replicate hmem, List.eq_of_mem_replicate hmem']

/-- An active key that is missing is of a modifier that may be switched off. -/
theorem Kept.missing (hs : Kept K s₀ down m s) {e : KeyModifierMask × KeyItem}
    (he : e ∈ s₀.activeModifiers) (hb : e.2.button ∉ collectButtons s.activeModifiers) :
    ∃ bit, e.1 = bitMask bit ∧ K.MaySwitch s₀ m bit false := by
  have hmem := Multimap.mem_equalRange.2 he
  rcases hs.mods e.1 with ⟨hrange, -⟩ | ⟨bit, n, k, hbit, hheld⟩
  · rw [← hrange, Multimap.mem_equalRange] at hmem
    exact absurd (mem_collectButtons.2 ⟨e, hmem, rfl⟩) hb
  · rw [hbit] at hmem
    exact ⟨bit, hbit, hheld.off (List.ne_nil_of_mem hmem)⟩

/-- A key that a modifier is held by is a lock exactly if an active key on its button is one. -/
theorem HeldBy.lock_eq {bit n : ℕ} (hstart : Start K s₀ down m)
    (hheld : HeldBy K s₀ down m s bit n k) (hn : 0 < n) {e : KeyModifierMask × KeyItem}
    (he : e ∈ s₀.activeModifiers) (hbutton : e.2.button = k.button) : e.2.lock = k.lock := by
  obtain ⟨hmod, hgen⟩ := hheld.key.generates_eq hstart.plain
  have hmask : e.1 = bitMask bit := by
    rw [hstart.plain.keyed e he, ← hgen]
    exact hstart.plain.button _ _ (.inr ⟨e.1, he⟩) hmod hbutton
  have hmem : e.2 ∈ s₀.activeModifiers.equalRange (bitMask bit) :=
    Multimap.mem_equalRange.2 (hmask ▸ he)
  exact hstart.locks.active bit k (hheld.on hn) (hheld.off (List.ne_nil_of_mem hmem)) hheld.key e
    he hbutton

/-- A button of a modifier that is down and not to be released, while it is not to be pressed
either, was down at first. -/
theorem Kept.down_of_unchanged (hstart : Start K s₀ down m) (hs : Kept K s₀ down m s)
    (hitem : K.IsModifier s₀ item)
    (hkept : item.button ∈ collectButtons s₀.activeModifiers →
      item.button ∈ collectButtons s.activeModifiers) :
    (item.button ∈ s.pressed down ∧ (item.button ∈ collectButtons s.activeModifiers →
        item.button ∈ collectButtons s₀.activeModifiers)) ↔ item.button ∈ down := by
  rcases hs.mods item.generates with ⟨hrange, hpressed⟩ | ⟨bit, n, k, hgen, hheld⟩
  · rw [hpressed item hitem rfl]
    refine and_iff_left fun hactive => ?_
    -- The modifier is held as at first, so an active key on the button was active.
    obtain ⟨e, he, hbutton⟩ := mem_collectButtons.1 hactive
    have hmask : e.1 = item.generates :=
      (hs.keyed e he).trans (hstart.plain.button _ _ (hs.modifier e he) hitem hbutton)
    have hmem : e.2 ∈ s.activeModifiers.equalRange item.generates :=
      Multimap.mem_equalRange.2 (hmask ▸ he)
    rw [hrange, Multimap.mem_equalRange] at hmem
    exact mem_collectButtons.2 ⟨_, hmem, hbutton⟩
  obtain ⟨v, hmay⟩ := hheld.may
  have hfirst := hstart.held bit v item hmay hitem hgen
  have hbefore : item.button ∈ down → item.button ∈ collectButtons s₀.activeModifiers := by
    intro hdown
    obtain ⟨e, he, -, hbutton⟩ := hfirst.1 hdown
    exact mem_collectButtons.2 ⟨e, he, hbutton⟩
  constructor
  · rintro ⟨hpressed, hwanted⟩
    rcases hheld.buttons item hitem hgen hpressed with hdown | ⟨hn, hlock, hbutton⟩
    · exact hdown
    · -- The key is held, so its button was wanted, and then it was down.
      have hk : (bitMask bit, k) ∈ s.activeModifiers := by
        rw [← Multimap.mem_equalRange, hheld.range]
        exact List.mem_replicate.2 ⟨Nat.ne_of_gt hn, rfl⟩
      obtain ⟨e, he, heb⟩ :=
        mem_collectButtons.1 (hwanted (mem_collectButtons.2 ⟨_, hk, hbutton.symm⟩))
      refine hfirst.2 ⟨e, he, ?_, heb⟩
      rw [hheld.lock_eq hstart hn he (heb.trans hbutton), hlock]
  · intro hdown
    refine ⟨?_, fun _ => hbefore hdown⟩
    obtain ⟨e', he', heb'⟩ := mem_collectButtons.1 (hkept (hbefore hdown))
    have hmem : e'.2 ∈ s.activeModifiers.equalRange (bitMask bit) := by
      rw [Multimap.mem_equalRange, ← hgen,
        ← hstart.plain.button _ _ (hs.modifier e' he') hitem heb', ← hs.keyed e' he']
      exact he'
    rw [hheld.range, List.mem_replicate] at hmem
    have hn := Nat.pos_of_ne_zero hmem.1
    obtain ⟨e, he, hlock, heb⟩ := hfirst.1 hdown
    have hbutton : item.button = k.button := heb'.symm.trans (congrArg KeyItem.button hmem.2)
    rw [hbutton, hheld.pressed hn, ← hheld.lock_eq hstart hn he (heb.trans hbutton)]
    exact hlock

/-- The modifiers are switched back: the same buttons hold modifiers, and the buttons of modifiers
are down as at first. -/
theorem keysToRestoreModifiers_restores (hstart : Start K s₀ down m)
    (hs : Kept K s₀ down m s) (hnot : NotModifier K s₀ item.button) :
    let s' := K.keysToRestoreModifiers item s₀.activeModifiers s
    Sound K s₀ s' ∧
      (∀ b, b ∈ collectButtons s'.activeModifiers ↔ b ∈ collectButtons s₀.activeModifiers) ∧
      (∀ j, K.IsModifier s₀ j → (j.button ∈ s'.pressed down ↔ j.button ∈ down)) ∧
      ∀ b, NotModifier K s₀ b → (b ∈ s'.pressed down ↔ b ∈ s.pressed down) := by
  have hunwanted : ∀ e ∈ s.activeModifiers, e.2.button ∉ collectButtons s₀.activeModifiers →
      ∀ e' ∈ s.activeModifiers, e'.1 = e.1 → e'.2.button = e.2.button :=
    fun e he hb e' he' hmask => hs.unwanted he hb he' hmask
  have hentries : ∀ e ∈ s.activeModifiers.entries, e ∈ s.activeModifiers := fun e he => he
  obtain ⟨hs₂, hactive₂, hpressed₂⟩ := addMissing_release down hstart.plain hnot
    (fun e he => ⟨hs.modifier e he, hs.keyed e he⟩) hunwanted hentries hs.toSound hentries
    fun e _ _ => Nat.le_of_eq (List.length_map ..)
  have hentries₀ : ∀ e ∈ s₀.activeModifiers.entries,
      K.IsModifier s₀ e.2 ∧ e.1 = e.2.generates :=
    fun e he => ⟨.inr ⟨e.1, he⟩, hstart.plain.keyed e he⟩
  have hlocks : ∀ e ∈ s₀.activeModifiers.entries, e.2.button ∉ collectButtons s.activeModifiers →
      ∀ e' ∈ s₀.activeModifiers.entries, e.2.button = e'.2.button → e.2.lock = e'.2.lock := by
    intro e he hb e' he'
    obtain ⟨bit, hmask, hoff⟩ := hs.missing he hb
    exact hstart.locks.held bit hoff e he hmask e' he'
  obtain ⟨hs', hactive', hadded, hothers⟩ := addMissing_press down
    (collectButtons s.activeModifiers) hstart.plain hnot hentries₀ hlocks hs₂
  dsimp only [keysToRestoreModifiers]
  refine ⟨hs', fun b => ?_, fun j hj => ?_, fun b hb => ?_⟩
  · rw [mem_collectButtons]
    constructor
    · rintro ⟨e, he, rfl⟩
      rcases (hactive' e).1 he with he | he
      · exact ((hactive₂ e).1 he).2
      · exact mem_collectButtons.2 ⟨e, he.1, rfl⟩
    · intro hb
      by_cases hb' : b ∈ collectButtons s.activeModifiers
      · obtain ⟨e, he, rfl⟩ := mem_collectButtons.1 hb'
        exact ⟨e, (hactive' e).2 (.inl ((hactive₂ e).2 ⟨he, hb⟩)), rfl⟩
      · obtain ⟨e, he, rfl⟩ := mem_collectButtons.1 hb
        exact ⟨e, (hactive' e).2 (.inr ⟨he, hb'⟩), rfl⟩
  · by_cases hmissing : ∃ e ∈ s₀.activeModifiers, e.2.button = j.button ∧
        e.2.button ∉ collectButtons s.activeModifiers
    · obtain ⟨e, he, hbutton, hb⟩ := hmissing
      obtain ⟨bit, hmask, hoff⟩ := hs.missing he hb
      have hgen : j.generates = bitMask bit := by
        rw [← hmask, hstart.plain.keyed e he]
        exact hstart.plain.button _ _ hj (.inr ⟨e.1, he⟩) hbutton.symm
      rw [← hbutton, hadded e he hb, hbutton, hstart.held bit false j hoff hj hgen]
      refine ⟨fun hlock => ⟨e, he, hlock, hbutton⟩, ?_⟩
      rintro ⟨e', he', hlock, hbutton'⟩
      rw [hlocks e he hb e' he' (hbutton.trans hbutton'.symm), hlock]
    · have hheld : ∀ e ∈ s₀.activeModifiers.entries, e.2.button = j.button →
          j.button ∈ collectButtons s.activeModifiers := fun e he hbutton =>
        Decidable.byContradiction fun hb => hmissing ⟨e, he, hbutton, hbutton ▸ hb⟩
      rw [hothers _ hheld, hpressed₂, ← hs.down_of_unchanged hstart hj fun hb => ?_]
      · refine and_congr_right fun _ => ⟨fun h hb => ?_, fun h e he hbutton => ?_⟩
        · obtain ⟨e, he, hbutton⟩ := mem_collectButtons.1 hb
          exact h e he hbutton
        · exact h (mem_collectButtons.2 ⟨e, he, hbutton⟩)
      · obtain ⟨e, he, hbutton⟩ := mem_collectButtons.1 hb
        exact hheld e he hbutton
  · rw [hothers b fun e he hbutton => absurd hbutton (hb e.2 (hentries₀ e he).1), hpressed₂]
    exact and_iff_left fun e he hbutton => absurd hbutton (hb e.2 (hs.modifier e he))

end KeyMap

end InputLeap
