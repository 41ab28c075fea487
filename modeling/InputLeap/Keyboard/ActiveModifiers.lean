import InputLeap.Keyboard.MappedKey

/-!
# The keys that hold modifiers

What `mapKey` makes of the active modifiers: a key becomes active only if it generates a modifier.

## Main definitions

* `KeyMap.ForModifiers`, `KeyMap.AllActive` : a property of the keys of the map that generate a
  modifier, and of the active ones.

## Main results

* `KeyMap.allActive_mapKey` : what holds of the former and of the keys that are active before a call
  holds of those after it.
-/

namespace InputLeap

namespace KeyMap

/-- Every key of the map that generates a modifier has the property. -/
def ForModifiers (K : KeyMap) (P : KeyItem → Prop) : Prop :=
  ∀ item ∈ K.keyItems, item.generates ≠ 0 → P item

/-- Every active key has the property. -/
def AllActive (P : KeyItem → Prop) (modifiers : ModifierToKeys) : Prop := ∀ e ∈ modifiers, P e.2

variable {K : KeyMap} {P : KeyItem → Prop} {modifiers : ModifierToKeys} {item : KeyItem}
variable {s : Synthesis} {type : KeystrokeType} {mask : KeyModifierMask}
variable {button : KeyButton} {group n : ℕ}

theorem allActive_empty : AllActive P .empty := fun _ he => absurd he List.not_mem_nil

theorem AllActive.insert (h : AllActive P modifiers) (hitem : P item) :
    AllActive P (modifiers.insert mask item) := by
  intro e he
  rcases Multimap.mem_insert.1 he with rfl | he
  · exact hitem
  · exact h e he

theorem AllActive.eraseKey (h : AllActive P modifiers) : AllActive P (modifiers.eraseKey mask) :=
  fun e he => h e (Multimap.mem_eraseKey.1 he).1

theorem AllActive.eraseFirst {p : KeyItem → Bool} (h : AllActive P modifiers) :
    AllActive P (modifiers.eraseFirst mask p) :=
  fun e he => h e (Multimap.mem_of_mem_eraseFirst he)

/-- A key becomes active only if it generates a modifier or is used for one. -/
theorem AllActive.addKeystrokes (h : AllActive P s.activeModifiers)
    (hitem : item.generates ≠ 0 ∨ type = .modify → P item) :
    AllActive P (K.addKeystrokes type item s).activeModifiers := by
  cases type with
  | press =>
    simp only [KeyMap.addKeystrokes]
    split_ifs with hzero
    · exact h
    · exact h.insert (hitem (.inl hzero))
    · exact h.eraseKey
  | release =>
    simp only [KeyMap.addKeystrokes]
    split_ifs
    · exact h
    · exact h.eraseFirst
    · exact h.eraseFirst
  | autorepeat | click => exact h
  | modify => exact h.insert (hitem (.inr rfl))
  | unmodify => exact h.eraseKey

/-- The key of a modifier has the property. -/
theorem ForModifiers.keyForModifier {bit : ℕ} (hK : K.ForModifiers P)
    (h : K.keyForModifier button group bit = some item) : P item := by
  have hgen := generates_of_keyForModifier h
  refine hK item (mem_keyItems_of_mem_modifierKeys (List.mem_of_find?_eq_some h)) ?_
  intro hzero
  simp [hzero] at hgen

theorem AllActive.fixModifiers {notRequired required flip : KeyModifierMask}
    (hK : K.ForModifiers P) (h : AllActive P s.activeModifiers) :
    AllActive P (K.fixModifiers button group notRequired n required flip s).2.activeModifiers := by
  induction n generalizing required flip s with
  | zero => exact h
  | succ bit ih =>
    rw [KeyMap.fixModifiers]
    by_cases hflip : flip.getLsbD bit = false
    · rw [if_pos hflip]
      exact ih h
    · rw [if_neg hflip]
      cases hkey : K.keyForModifier button group bit with
      | none =>
        dsimp only
        split_ifs
        · exact h
        · exact ih h
      | some item =>
        dsimp only
        -- what the nested call does, if there is one
        generalize hneeded : (if item.sensitive &&& ~~~bitMask bit ≠ 0 ∧
          required.getLsbD bit = true then _ else _ : Bool × Synthesis) = needed
        have hafter : AllActive P needed.2.activeModifiers := by
          rw [← hneeded]
          split_ifs
          · exact h
          · exact ih h
          · exact h
        split_ifs
        · exact h
        · exact hafter
        · exact hafter
        · exact ih (hafter.addKeystrokes fun _ => hK.keyForModifier hkey)
        · exact ih (hafter.addKeystrokes fun _ => hK.keyForModifier hkey)

theorem AllActive.keysForModifierState {required sensitive notRequired : KeyModifierMask}
    (hK : K.ForModifiers P) (h : AllActive P s.activeModifiers) :
    AllActive P
      (K.keysForModifierState button group required sensitive notRequired s).2.activeModifiers := by
  rw [KeyMap.keysForModifierState]
  split_ifs
  · exact h
  · exact h.fixModifiers hK

/-- The outcome of a call is that of its two parts. -/
theorem AllActive.of_eq {required sensitive notRequired : KeyModifierMask} {ok : Bool}
    {s' : Synthesis} (hK : K.ForModifiers P) (h : AllActive P s.activeModifiers)
    (hcall : K.keysForModifierState button group required sensitive notRequired s = (ok, s')) :
    AllActive P s'.activeModifiers := by
  have hs' : s' = (K.keysForModifierState button group required sensitive notRequired s).2 := by
    rw [hcall]
  rw [hs']
  exact h.keysForModifierState hK

variable {desired override : KeyModifierMask} {isAutoRepeat : Bool} {before after : ℕ × Synthesis}

theorem AllActive.keysForKeyItem (hK : K.ForModifiers P)
    (h : AllActive P before.2.activeModifiers) (hitem : item.generates ≠ 0 → P item)
    (hkeys : K.keysForKeyItem desired override isAutoRepeat item before = some after) :
    AllActive P after.2.activeModifiers := by
  rw [KeyMap.keysForKeyItem] at hkeys
  dsimp only at hkeys
  generalize hgroup : (if before.1 = item.group then before.2 else _ : Synthesis) = s at hkeys
  have hs : AllActive P s.activeModifiers := by
    rw [← hgroup]
    split_ifs
    · exact h
    · exact h
  split_ifs at hkeys
  · split at hkeys
    · cases hkeys
    · rename_i hcall
      obtain rfl := Option.some.inj hkeys
      exact (hs.of_eq hK hcall).addKeystrokes fun hor => hitem (hor.resolve_right nofun)
  all_goals
    split at hkeys
    · cases hkeys
    · rename_i hcall
      split at hkeys
      · cases hkeys
      · rename_i hcall'
        obtain rfl := Option.some.inj hkeys
        exact ((hs.of_eq hK hcall).of_eq hK hcall').addKeystrokes
          fun hor => hitem (hor.resolve_right nofun)

theorem AllActive.keysForKeyItems {items : List KeyItem} (hK : K.ForModifiers P)
    (h : AllActive P before.2.activeModifiers)
    (hitems : ∀ item ∈ items, item.generates ≠ 0 → P item)
    (hkeys : K.keysForKeyItems desired override isAutoRepeat items before = some after) :
    AllActive P after.2.activeModifiers := by
  induction items generalizing before with
  | nil =>
    obtain rfl := Option.some.inj hkeys
    exact h
  | cons item items ih =>
    obtain ⟨next, hnext, hkeys⟩ := Option.bind_eq_some_iff.1 hkeys
    obtain ⟨hitem, hitems⟩ := List.forall_mem_cons.1 hitems
    exact ih (h.keysForKeyItem hK hitem hnext) hitems hkeys

theorem AllActive.addMissing {types : KeyItem → KeystrokeType} {buttons : List KeyButton}
    {entries : List (KeyModifierMask × KeyItem)} (h : AllActive P s.activeModifiers)
    (hentries : ∀ e ∈ entries, P e.2) :
    AllActive P (K.addMissing types item buttons entries s).activeModifiers := by
  unfold KeyMap.addMissing
  induction entries generalizing s with
  | nil => exact h
  | cons e entries ih =>
    obtain ⟨he, hentries⟩ := List.forall_mem_cons.1 hentries
    rw [List.foldl_cons]
    split_ifs
    · exact ih (h.addKeystrokes fun _ => he) hentries
    · exact ih h hentries

theorem AllActive.mapItems {items : List KeyItem} {keyItem : KeyItem} (hK : K.ForModifiers P)
    (h : AllActive P s.activeModifiers) (hitems : ∀ item ∈ items, item.generates ≠ 0 → P item) :
    AllActive P
      (K.mapItems items keyItem group desired override isAutoRepeat s).2.activeModifiers := by
  rw [KeyMap.mapItems]
  split
  · exact h
  · rename_i hkeys
    have hbefore : AllActive P (group, s).2.activeModifiers := h
    have hafter := AllActive.keysForKeyItems hK hbefore hitems hkeys
    have hrestored : AllActive P
        (K.keysToRestoreModifiers keyItem s.activeModifiers _).activeModifiers :=
      (hafter.addMissing fun e he => hafter e he).addMissing fun e he => h e he
    dsimp only
    split_ifs
    · exact hrestored
    · exact hrestored

/-- The items of a key are items of the map. -/
theorem mem_keyItems_of_table {id : KeyID} {table : KeyGroupTable}
    (h : K.keyIDMap[id]? = some table) (hitem : item ∈ KeyGroupTable.items table) :
    item ∈ K.keyItems :=
  List.mem_flatMap.2 ⟨(id, table), Std.TreeMap.mem_toList_iff_getElem?_eq_some.2 h, hitem⟩

theorem AllActive.mapCharacterKey {id : KeyID} (hK : K.ForModifiers P)
    (h : AllActive P s.activeModifiers) :
    AllActive P (K.mapCharacterKey id group desired isAutoRepeat s).2.activeModifiers := by
  rw [KeyMap.mapCharacterKey]
  split
  · exact h
  · rename_i htable
    split
    · exact h
    · rename_i hitems
      exact h.mapItems hK fun item hitem =>
        hK item (mem_keyItems_of_table htable (mem_items_of_characterEntry hitems hitem))

theorem AllActive.mapCommandKey {id : KeyID} (hK : K.ForModifiers P)
    (h : AllActive P s.activeModifiers) :
    AllActive P (K.mapCommandKey id group desired isAutoRepeat s).2.activeModifiers := by
  rw [KeyMap.mapCommandKey]
  split
  · exact h
  · rename_i htable
    split
    · exact h
    · rename_i keyItem hcommand
      refine h.mapItems hK fun item hitem => hK item ?_
      rw [List.mem_singleton.1 hitem]
      exact mem_keyItems_of_table htable (mem_items_of_commandItem hcommand)

theorem AllActive.mapModifierChange {required sensitive : KeyModifierMask} (hK : K.ForModifiers P)
    (h : AllActive P s.activeModifiers) :
    AllActive P (K.mapModifierChange group required sensitive s).2.activeModifiers := by
  rw [KeyMap.mapModifierChange]
  split
  · rename_i hcall
    exact h.of_eq hK hcall
  · rename_i hcall
    exact h.of_eq hK hcall

/-- **What is active** after a key was mapped: what was active before, and keys of the map that
generate a modifier. -/
theorem AllActive.mapKey {id : KeyID} (hK : K.ForModifiers P) (h : AllActive P s.activeModifiers) :
    AllActive P (K.mapKey id group desired isAutoRepeat s).2.activeModifiers := by
  rw [KeyMap.mapKey]
  split_ifs
  · exact h
  · exact h
  · exact h.mapCharacterKey hK
  · exact h.mapModifierChange hK
  · exact h.mapModifierChange hK
  · exact h.mapCommandKey hK
  · exact h.mapCharacterKey hK

end KeyMap

end InputLeap
