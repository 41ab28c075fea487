import InputLeap.Maps.Multimap
import Mathlib.Data.Nat.Notation
import Mathlib.Data.Int.Notation
import Mathlib.Data.Nat.Init
import Std.Data.TreeMap.Basic
import Std.Data.TreeSet.Basic

/-!
# The keys of a keyboard

`KeyMap` knows the ways in which a keyboard makes each key: which button to press, and which
modifiers have to be on or off for it. To make a key, modifiers are switched on and off first.
Switching a modifier may need other modifiers in turn.

## Main definitions

* `KeyMap.KeyItem`, `KeyMap.Keystroke`, `KeyMap` : a way to make a key, what is sent for it, and
  the keyboard.
* `KeyMap.addKeystrokes` : one key is pressed, released, clicked or used as a modifier.
* `KeyMap.keysForModifierState` : modifiers are switched as a key needs them.
* `KeyMap.Switches` : the turns of its loop when it works.

## Main results

* `KeyMap.fixModifiers_nested` : the loop of a call for the modifiers that a key needs.
* `KeyMap.keysForModifierState_switches` : a call that works is a series of turns.
-/

namespace InputLeap

/-- The number of a key (`KeyID`). -/
abbrev KeyID := ℕ

/-- The number of a button (`KeyButton`). -/
abbrev KeyButton := ℕ

/-- A set of modifiers (`KeyModifierMask`). -/
abbrev KeyModifierMask := BitVec 32

/-- Sets of modifiers are ordered as numbers are. -/
instance : Std.IsLinearOrder KeyModifierMask := BitVec.instIsLinearOrder

/-- `kKeyModifierNumBits`. -/
def keyModifierNumBits : ℕ := 16

/-- The mask of one modifier, `1u << bit`. -/
def bitMask (bit : ℕ) : KeyModifierMask := BitVec.twoPow 32 bit

theorem getLsbD_bitMask {bit i : ℕ} : (bitMask bit).getLsbD i = decide (bit < 32 ∧ bit = i) := by
  rw [bitMask, BitVec.getLsbD_twoPow]
  simp

namespace KeyMap

/-- One way to synthesize a key. -/
structure KeyItem where
  id : KeyID
  group : ℕ
  button : KeyButton
  /-- Of the modifiers in `sensitive`, those that have to be on. -/
  required : KeyModifierMask
  /-- The modifiers that matter for the key. -/
  sensitive : KeyModifierMask
  /-- The modifiers that the key is mapped to. -/
  generates : KeyModifierMask
  dead : Bool
  lock : Bool
  client : ℕ
deriving DecidableEq

/-- Something that is sent: a button, or another group. -/
inductive Keystroke where
  | button (button : KeyButton) (press isRepeat : Bool) (client : ℕ)
  | group (group : ℤ) (absolute restore : Bool)
deriving DecidableEq

/-- The keys that synthesize a key together: the dead keys, then the key. There is at least
one. -/
abbrev KeyItemList := {items : List KeyItem // items ≠ []}

/-- A key that is synthesized by one button. -/
def KeyItemList.single (item : KeyItem) : KeyItemList := ⟨[item], List.cons_ne_nil item []⟩

/-- The last key of a list. -/
def KeyItemList.back (items : KeyItemList) : KeyItem := items.1.getLast items.2

/-- The ways to synthesize a key in one group. -/
abbrev KeyEntryList := List KeyItemList

/-- The ways to synthesize a key, by group. -/
abbrev KeyGroupTable := List KeyEntryList

/-- The keys that hold modifiers, by modifier. -/
abbrev ModifierToKeys := Multimap KeyModifierMask KeyItem

/-- The ways to synthesize a key item (`EKeystroke`). -/
inductive KeystrokeType where
  | press
  | release
  | autorepeat
  | click
  | modify
  | unmodify
deriving DecidableEq

/-- What the functions that make keystrokes change. -/
structure Synthesis where
  activeModifiers : ModifierToKeys
  currentState : KeyModifierMask
  keystrokes : List Keystroke
deriving DecidableEq

/-- Nothing is down. -/
def released : Synthesis := ⟨.empty, 0, []⟩

end KeyMap

open KeyMap

/-- A key map after `finish`: every key has as many groups as the map. -/
structure KeyMap where
  keyIDMap : Std.TreeMap KeyID KeyGroupTable
  numGroups : ℕ
  halfDuplex : Std.TreeSet KeyButton
  groups : ∀ entry ∈ keyIDMap.toList, entry.2.length = numGroups

namespace KeyMap

variable (K : KeyMap)

/-- The keys that generate a modifier in a group (`m_modifierKeys`, as `setModifierKeys` fills
it): those that synthesize a key alone. -/
def modifierKeys (group bit : ℕ) : List KeyItem :=
  K.keyIDMap.toList.flatMap fun key => (key.2.getD group []).flatMap fun entry =>
    match entry.1 with
    | [item] => if item.generates ≠ 0 ∧ item.generates.getLsbD bit then [item] else []
    | _ => []

/-- The first key of a modifier that is not on the given button. -/
def keyForModifier (button : KeyButton) (group modifierBit : ℕ) : Option KeyItem :=
  (K.modifierKeys group modifierBit).find? fun item => item.button ≠ button

/-- The keystrokes of one key are added, and it holds or frees its modifiers. -/
def addKeystrokes (type : KeystrokeType) (item : KeyItem) (s : Synthesis) : Synthesis :=
  let stroke (press isRepeat : Bool) : Keystroke :=
    .button item.button press isRepeat item.client
  let activate (strokes : List Keystroke) : Synthesis :=
    { activeModifiers := s.activeModifiers.insert item.generates item
      currentState := s.currentState ||| item.generates
      keystrokes := s.keystrokes ++ strokes }
  let deactivate (strokes : List Keystroke) : Synthesis :=
    { activeModifiers := s.activeModifiers.eraseKey item.generates
      currentState := s.currentState &&& ~~~item.generates
      keystrokes := s.keystrokes ++ strokes }
  let send (strokes : List Keystroke) : Synthesis :=
    { s with keystrokes := s.keystrokes ++ strokes }
  match type with
  | .press =>
    if item.generates = 0 then send [stroke true false]
    else if item.lock = false ∨ s.currentState &&& item.generates = 0 then
      activate [stroke true false]
    else deactivate [stroke true false]
  | .release =>
    if item.generates = 0 ∨ item.lock then send [stroke false false]
    else
      let active := s.activeModifiers.eraseFirst item.generates fun k => k.button = item.button
      -- the modifier stays on while another of its keys is down
      { activeModifiers := active
        currentState :=
          if active.equalRange item.generates = [] then s.currentState &&& ~~~item.generates
          else s.currentState
        keystrokes := s.keystrokes ++ [stroke false false] }
  | .autorepeat => send [stroke false true, stroke true true]
  | .click => send [stroke true false, stroke false false]
  | .modify =>
    activate (if item.lock ∧ item.button ∉ K.halfDuplex then [stroke true false, stroke false false]
      else [stroke true false])
  | .unmodify =>
    deactivate
      (if item.lock then
        if item.button ∈ K.halfDuplex then [stroke false false]
        else [stroke true false, stroke false false]
      else
        -- all the keys that hold the modifier
        (s.activeModifiers.equalRange item.generates).map fun k =>
          .button k.button false false k.client)

/-- The modifiers to switch (`flipMask`). -/
def flipMask (currentState required sensitive notRequired : KeyModifierMask) : KeyModifierMask :=
  (currentState ^^^ required) &&& sensitive &&& ~~~notRequired

/-- The loop of `keysForModifierState` over the modifiers, from the highest to the lowest: those
of `flip` below a bit are switched. It returns whether this worked, and what it did until then.

For a modifier that is switched on, `keysForModifierState` is called for the modifiers that its
key needs. These are all below the modifier, so the loop of that call can start there
(`fixModifiers_nested`). -/
def fixModifiers (button : KeyButton) (group : ℕ) (notRequired : KeyModifierMask) :
    ℕ → KeyModifierMask → KeyModifierMask → Synthesis → Bool × Synthesis
  | 0, _, _, s => (true, s)
  | bit + 1, required, flip, s =>
    if flip.getLsbD bit = false then fixModifiers button group notRequired bit required flip s
    else
      match K.keyForModifier button group bit with
      | none =>
        if notRequired.getLsbD bit = false then (false, s)
        else fixModifiers button group notRequired bit required flip s
      | some item =>
        let active := required.getLsbD bit
        -- a modifier that is sensitive to itself makes no sense
        let sensitive := item.sensitive &&& ~~~bitMask bit
        if sensitive ≠ 0 ∧ bitMask bit < sensitive then (false, s)
        else
          let needed : Bool × Synthesis :=
            if sensitive ≠ 0 ∧ active then
              let flip' := flipMask s.currentState item.required sensitive notRequired
              if flip' = 0 then (true, s)
              else fixModifiers button group notRequired bit item.required flip' s
            else (true, s)
          if needed.1 = false then needed
          else if needed.2.currentState &&& sensitive ≠ item.required &&& sensitive then
            (false, needed.2)
          else
            fixModifiers button group notRequired bit required flip
              (K.addKeystrokes (if active then .modify else .unmodify) item needed.2)

/-- The modifiers in `sensitive` but not in `notRequired` are switched as `required` says. It
returns whether this worked, and what it did until then. -/
def keysForModifierState (button : KeyButton) (group : ℕ)
    (required sensitive notRequired : KeyModifierMask) (s : Synthesis) : Bool × Synthesis :=
  let flip := flipMask s.currentState required sensitive notRequired
  if flip = 0 then (true, s)
  else K.fixModifiers button group notRequired keyModifierNumBits required flip s

/-- The modifiers that a key is sensitive to, but for the one that it is used for. -/
def KeyItem.sensitiveBut (item : KeyItem) (bit : ℕ) : KeyModifierMask :=
  item.sensitive &&& ~~~bitMask bit

/-- The turns of the loop, when it works: a modifier is as it should be, or it is switched on
after the modifiers that its key needs, or it is switched off. -/
inductive Switches (button : KeyButton) (group : ℕ) (notRequired : KeyModifierMask) :
    ℕ → KeyModifierMask → KeyModifierMask → Synthesis → Synthesis → Prop
  | done {required flip s} : Switches button group notRequired 0 required flip s s
  | skip {bit required flip s s'} (hflip : flip.getLsbD bit = false)
      (hrest : Switches button group notRequired bit required flip s s') :
      Switches button group notRequired (bit + 1) required flip s s'
  | on {bit required flip item s s₁ s'} (hflip : flip.getLsbD bit = true)
      (hon : required.getLsbD bit = true)
      (hkey : K.keyForModifier button group bit = some item)
      (hneeded : Switches button group notRequired bit item.required
        (flipMask s.currentState item.required (item.sensitiveBut bit) notRequired) s s₁)
      (hcheck : s₁.currentState &&& item.sensitiveBut bit =
        item.required &&& item.sensitiveBut bit)
      (hrest : Switches button group notRequired bit required flip
        (K.addKeystrokes .modify item s₁) s') :
      Switches button group notRequired (bit + 1) required flip s s'
  | off {bit required flip item s s'} (hflip : flip.getLsbD bit = true)
      (hoff : required.getLsbD bit = false)
      (hkey : K.keyForModifier button group bit = some item)
      (hcheck : s.currentState &&& item.sensitiveBut bit =
        item.required &&& item.sensitiveBut bit)
      (hrest : Switches button group notRequired bit required flip
        (K.addKeystrokes .unmodify item s) s') :
      Switches button group notRequired (bit + 1) required flip s s'

/-! ### Keys of modifiers -/

variable {K} {button : KeyButton} {group bit c n : ℕ} {item : KeyItem} {s s₁ s' : Synthesis}
variable {currentState required sensitive notRequired flip : KeyModifierMask}

theorem generates_of_mem_modifierKeys (h : item ∈ K.modifierKeys group bit) :
    item.generates.getLsbD bit = true := by
  rw [modifierKeys, List.mem_flatMap] at h
  obtain ⟨key, -, h⟩ := h
  obtain ⟨entry, -, h⟩ := List.mem_flatMap.1 h
  split at h
  · rw [List.mem_ite_nil_right, List.mem_singleton] at h
    exact h.2 ▸ h.1.2
  · exact absurd h List.not_mem_nil

/-- The key of a modifier generates it. -/
theorem generates_of_keyForModifier (h : K.keyForModifier button group bit = some item) :
    item.generates.getLsbD bit = true :=
  generates_of_mem_modifierKeys (List.mem_of_find?_eq_some h)

/-- How a modifier is switched. -/
def switchType (on : Bool) : KeystrokeType := if on then .modify else .unmodify

/-- The modifiers after a key is switched on or off. -/
def switchKey (mask : KeyModifierMask) (key : KeyItem × Bool) : KeyModifierMask :=
  if key.2 then mask ||| key.1.generates else mask &&& ~~~key.1.generates

theorem getLsbD_switchKey {mask : KeyModifierMask} {key : KeyItem × Bool} :
    (switchKey mask key).getLsbD c =
      if key.1.generates.getLsbD c then key.2 else mask.getLsbD c := by
  obtain ⟨item, on⟩ := key
  cases on with
  | true =>
    change (mask ||| item.generates).getLsbD c = _
    rw [BitVec.getLsbD_or]
    cases item.generates.getLsbD c <;> simp
  | false =>
    change (mask &&& ~~~item.generates).getLsbD c = _
    rw [BitVec.getLsbD_and, BitVec.getLsbD_not]
    by_cases hc : c < 32
    · cases item.generates.getLsbD c <;> simp [hc]
    · simp [hc, BitVec.getLsbD_of_ge _ _ (Nat.le_of_not_lt hc)]

theorem currentState_switch {on : Bool} :
    (K.addKeystrokes (switchType on) item s).currentState =
      switchKey s.currentState (item, on) := by
  cases on with
  | true => rfl
  | false => rfl

/-- Switching a modifier changes the modifiers that its key generates, and no others. -/
theorem getLsbD_switch {on : Bool} :
    (K.addKeystrokes (switchType on) item s).currentState.getLsbD c =
      if item.generates.getLsbD c then on else s.currentState.getLsbD c := by
  rw [currentState_switch, getLsbD_switchKey]

/-! ### The loop over the modifiers -/

theorem getLsbD_flipMask :
    (flipMask currentState required sensitive notRequired).getLsbD c = true ↔
      currentState.getLsbD c ≠ required.getLsbD c ∧ sensitive.getLsbD c = true ∧
        notRequired.getLsbD c = false := by
  rw [flipMask, BitVec.getLsbD_and, BitVec.getLsbD_and, BitVec.getLsbD_xor, BitVec.getLsbD_not]
  by_cases hc : c < 32
  · cases currentState.getLsbD c <;> cases required.getLsbD c <;> simp [hc]
  · simp [hc, BitVec.getLsbD_of_ge _ _ (Nat.le_of_not_lt hc)]

theorem getLsbD_sensitiveBut :
    (item.sensitiveBut bit).getLsbD c = true ↔ item.sensitive.getLsbD c = true ∧ c ≠ bit := by
  rw [KeyItem.sensitiveBut, BitVec.getLsbD_and, BitVec.getLsbD_not, getLsbD_bitMask]
  by_cases hc : c < 32
  · have hne : (bit < 32 ∧ bit = c) ↔ c = bit := ⟨fun h => h.2.symm, fun h => ⟨h ▸ hc, h.symm⟩⟩
    simp [hc, hne]
  · simp [hc, BitVec.getLsbD_of_ge _ _ (Nat.le_of_not_lt hc)]

/-- A key that passes the check of the loop is sensitive to lower modifiers only. -/
theorem lt_of_sensitiveBut (hbit : bit < 32)
    (hcheck : ¬(item.sensitiveBut bit ≠ 0 ∧ bitMask bit < item.sensitiveBut bit))
    (hc : (item.sensitiveBut bit).getLsbD c = true) : c < bit := by
  have hne : item.sensitiveBut bit ≠ 0 := by
    intro hzero
    simp [hzero] at hc
  have hle : (item.sensitiveBut bit).toNat ≤ 2 ^ bit := by
    have hle := Nat.le_of_not_lt fun hlt => hcheck ⟨hne, BitVec.lt_def.2 hlt⟩
    rwa [bitMask, BitVec.toNat_twoPow_of_lt hbit] at hle
  have hpow : 2 ^ c ≤ (item.sensitiveBut bit).toNat := Nat.ge_two_pow_of_testBit hc
  have hcb : c ≤ bit := (Nat.pow_le_pow_iff_right (by decide : 1 < 2)).1 (Nat.le_trans hpow hle)
  exact Nat.lt_of_le_of_ne hcb (getLsbD_sensitiveBut.1 hc).2

/-- The loop does nothing for the modifiers that are not flipped. -/
theorem fixModifiers_above (h : ∀ c, flip.getLsbD c = true → c < bit) (hle : bit ≤ n) :
    K.fixModifiers button group notRequired n required flip s =
      K.fixModifiers button group notRequired bit required flip s := by
  induction n, hle using Nat.le_induction with
  | base => rfl
  | succ n hle ih =>
    have hn : flip.getLsbD n = false :=
      Bool.eq_false_iff.2 fun hn => absurd (h n hn) (Nat.not_lt.2 hle)
    rw [fixModifiers, if_pos hn, ih]

/-- The loop of the call for the modifiers that a key needs can start below its modifier. -/
theorem fixModifiers_nested (hbit : bit < keyModifierNumBits)
    (hcheck : ¬(item.sensitiveBut bit ≠ 0 ∧ bitMask bit < item.sensitiveBut bit)) :
    (let flip := flipMask s.currentState item.required (item.sensitiveBut bit) notRequired
      if flip = 0 then (true, s)
      else K.fixModifiers button group notRequired bit item.required flip s) =
      K.keysForModifierState button group item.required (item.sensitiveBut bit) notRequired s := by
  rw [keysForModifierState]
  dsimp only
  split_ifs
  · rfl
  · refine (fixModifiers_above (fun c hc => ?_) (Nat.le_of_lt hbit)).symm
    have h32 : bit < 32 := Nat.lt_trans hbit (by decide)
    exact lt_of_sensitiveBut h32 hcheck (getLsbD_flipMask.1 hc).2.1

theorem fixModifiers_zero (h : flip = 0) :
    K.fixModifiers button group notRequired n required flip s = (true, s) := by
  subst h
  induction n with
  | zero => rfl
  | succ n ih => rw [fixModifiers, if_pos (by simp), ih]

/-- The modifiers that a key needs are switched by the loop, also where it has nothing to do. -/
theorem needed_eq (hon : required.getLsbD bit = true)
    (h : (if item.sensitiveBut bit ≠ 0 ∧ required.getLsbD bit = true then
        if flipMask s.currentState item.required (item.sensitiveBut bit) notRequired = 0 then
          (true, s)
        else
          K.fixModifiers button group notRequired bit item.required
            (flipMask s.currentState item.required (item.sensitiveBut bit) notRequired) s
      else (true, s)) = (true, s₁)) :
    K.fixModifiers button group notRequired bit item.required
      (flipMask s.currentState item.required (item.sensitiveBut bit) notRequired) s =
        (true, s₁) := by
  by_cases hzero : flipMask s.currentState item.required (item.sensitiveBut bit) notRequired = 0
  · rw [fixModifiers_zero hzero]
    simpa [hzero] using h
  · have hsens : item.sensitiveBut bit ≠ 0 := by
      intro hsens
      simp [flipMask, hsens] at hzero
    rwa [if_pos ⟨hsens, hon⟩, if_neg hzero] at h

theorem fixModifiers_switches (hnot : ∀ c, flip.getLsbD c = true → notRequired.getLsbD c = false)
    (h : K.fixModifiers button group notRequired n required flip s = (true, s')) :
    Switches K button group notRequired n required flip s s' := by
  induction n generalizing required flip s s' with
  | zero =>
    cases h
    exact .done
  | succ bit ih =>
    rw [fixModifiers] at h
    by_cases hflip : flip.getLsbD bit = false
    · rw [if_pos hflip] at h
      exact .skip hflip (ih hnot h)
    · rw [if_neg hflip] at h
      rw [Bool.not_eq_false] at hflip
      cases hkey : K.keyForModifier button group bit with
      | none => simp [hkey, hnot bit hflip] at h
      | some item =>
        rw [hkey] at h
        dsimp only at h
        split at h
        · simp at h
        · generalize hneeded :
            (if item.sensitive &&& ~~~bitMask bit ≠ 0 ∧ required.getLsbD bit = true then _ else _) =
              needed at h
          obtain ⟨ok, s₁⟩ := needed
          cases ok with
          | false => simp at h
          | true =>
            rw [if_neg (by simp)] at h
            split at h
            · simp at h
            · rename_i hcheck
              have hcheck := Decidable.of_not_not hcheck
              by_cases hon : required.getLsbD bit = true
              · rw [if_pos hon] at h
                have hcall := needed_eq hon hneeded
                have hnested := ih (fun c hc => (getLsbD_flipMask.1 hc).2.2) hcall
                exact .on hflip hon hkey hnested hcheck (ih hnot h)
              · rw [if_neg (fun hand => hon hand.2)] at hneeded
                obtain ⟨-, rfl⟩ := Prod.ext_iff.1 hneeded
                rw [if_neg hon] at h
                exact .off hflip (Bool.eq_false_iff.2 hon) hkey hcheck (ih hnot h)

/-- A call that works is a series of turns of the loop. -/
theorem keysForModifierState_switches
    (h : K.keysForModifierState button group required sensitive notRequired s = (true, s')) :
    Switches K button group notRequired keyModifierNumBits required
      (flipMask s.currentState required sensitive notRequired) s s' := by
  refine fixModifiers_switches (fun c hc => (getLsbD_flipMask.1 hc).2.2) ?_
  rw [keysForModifierState] at h
  split at h
  · rename_i hzero
    rw [fixModifiers_zero hzero, h]
  · exact h

end KeyMap

end InputLeap
