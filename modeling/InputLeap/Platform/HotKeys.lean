import InputLeap.LTS.Basic
import InputLeap.Maps.FreeIds
import Std.Data.TreeMap.Lemmas
import Mathlib.Algebra.Group.Nat.Defs
import Mathlib.Data.List.Nodup
import Mathlib.Tactic.SplitIfs

/-!
# Hot keys of the X screen

The screen grabs the combinations of a hot key from the X server and notes the id of the hot key
for each.  An id that is given back is used again.  A combination that is grabbed for a second
hot key is noted for this one only, and nobody's when one of the two is given back.

## Main definitions

* `XKeyboard` : the tables of the key state and of the X server that hot keys are made from.
* `XWindowsScreen.grabs` : the combinations of a hot key.
* `HotKeys.registerHotKey`, `HotKeys.unregisterHotKey`, `HotKeys.onHotKey` : the calls.
* `HotKeys.Inv` : the ids in use and the free ones are the first numbers from one on, each once,
  and a combination is noted for an id that has it.

## Main results

* `HotKeys.register_spec`, `HotKeys.unregister_spec` : what the calls do; they keep the invariant.
* `HotKeys.inv_of_reachable` : it holds after any calls.
-/

namespace InputLeap

/-- A key code and the modifiers of X that are down with it (`HotKeyItem`). -/
abbrev HotKeyItem := ℕ × ℕ

/-- What hot keys are made from. -/
structure XKeyboard where
  /-- The X modifiers of the bit of a modifier (`m_modifierToX`). -/
  modifierToX : ℕ → Option ℕ
  /-- The key codes of a key (`m_keyCodeFromKey`). -/
  keyCodeFromKey : ℕ → List ℕ
  /-- The row of a modifier in the answer to `XGetModifierMapping`; free places are zero. -/
  modifierMap : ℕ → List ℕ

namespace XKeyboard

/-- The number of modifier bits (`kKeyModifierNumBits`). -/
def numBits : ℕ := 16

variable (kb : XKeyboard)

/-- The X modifiers of a mask, if all are known. -/
def mapModifiersToX (mask : ℕ) : Option ℕ :=
  (List.range numBits).foldlM (fun modifiers i =>
    if mask &&& 2 ^ i ≠ 0 then (kb.modifierToX (2 ^ i)).map (modifiers ||| ·)
    else some modifiers) 0

end XKeyboard

namespace XWindowsScreen

/-- `KeyModifierShift`, `KeyModifierControl`, `KeyModifierAlt`, `KeyModifierMeta` and
`KeyModifierSuper`. -/
def hotKeyModifiers : List ℕ := [0x0001, 0x0002, 0x0004, 0x0008, 0x0010]

/-- The modifiers that a hot key may have: all of these but `KeyModifierMeta`. -/
def allowedModifiers : ℕ := 0x0017

/-- `KeyModifierCapsLock`, `KeyModifierNumLock` and `KeyModifierScrollLock`. -/
def toggleModifiers : List ℕ := [0x1000, 0x2000, 0x4000]

/-- The complement of a mask of type `uint32_t`. -/
def complement (mask : ℕ) : ℕ := 0xffffffff ^^^ mask

/-- The row of an X modifier in the answer to `XGetModifierMapping`. -/
def mapIndex : ℕ → Option ℕ
  | 1 => some 0
  | 2 => some 1
  | 4 => some 2
  | 8 => some 3
  | 16 => some 4
  | 32 => some 5
  | 64 => some 6
  | 128 => some 7
  | _ => none

/-- The calls of `XGrabKey` so far, the combinations that were noted and the flag of errors. -/
structure Grabbing where
  calls : ℕ := 0
  items : List HotKeyItem := []
  err : Bool := false
  deriving DecidableEq

/-- Calls `XGrabKey`.  An error of the X server comes with the call of that number, or later. -/
def Grabbing.grab (errorAt : Option ℕ) (acc : Grabbing) (item : HotKeyItem) : Grabbing :=
  let err := acc.err || errorAt.any (· ≤ acc.calls + 1)
  { calls := acc.calls + 1
    items := if err then acc.items else acc.items ++ [item]
    err := err }

variable (kb : XKeyboard) (errorAt : Option ℕ)

/-- Grabs the keys of one of the modifiers together with the other modifiers. -/
def grabModifier (mask modifiers : ℕ) (acc : Grabbing) (modifier : ℕ) : Grabbing :=
  if acc.err || mask &&& modifier == 0 then acc
  else
    match kb.mapModifiersToX (mask &&& complement modifier) with
    | none => { acc with err := true }
    | some modifiers2 =>
      match mapIndex (modifiers ^^^ modifiers2) with
      | none => { acc with err := true }
      | some index =>
        (kb.modifierMap index).foldl (fun acc code =>
          if acc.err || code == 0 then acc else acc.grab errorAt (code, modifiers2)) acc

/-- The modifiers with those of the toggle modifiers whose bit is set in `i`. -/
def withToggles (modifiers : ℕ) (toggles : List ℕ) (i : ℕ) : ℕ :=
  toggles.zipIdx.foldl (fun m t => if i &&& 2 ^ t.2 ≠ 0 then m ||| t.1 else m) modifiers

/-- Grabs a key with every combination of the toggle modifiers. -/
def grabKey (modifiers : ℕ) (toggles : List ℕ) (acc : Grabbing) (code : ℕ) : Grabbing :=
  if acc.err then acc
  else
    (List.range (2 ^ toggles.length)).foldl (fun acc i =>
      acc.grab errorAt (code, withToggles modifiers toggles i)) acc

/-- Grabs the combinations of a hot key. -/
def grabAll (key mask modifiers : ℕ) : Grabbing :=
  if key = 0 then hotKeyModifiers.foldl (grabModifier kb errorAt mask modifiers) {}
  else
    (kb.keyCodeFromKey key).foldl
      (grabKey errorAt modifiers (toggleModifiers.filterMap kb.mapModifiersToX)) {}

/-- The combinations of a hot key that were noted and whether there was an error, unless it is
refused before any is grabbed. -/
def grabs (key mask : ℕ) : Option (List HotKeyItem × Bool) :=
  if mask &&& complement allowedModifiers ≠ 0 then none
  else if key = 0 ∧ mask = 0 then none
  else
    match kb.mapModifiersToX mask with
    | none => none
    | some modifiers =>
      if key ≠ 0 ∧ kb.keyCodeFromKey key = [] then none
      else
        let acc := grabAll kb errorAt key mask modifiers
        some (acc.items, acc.err || errorAt.isSome)

end XWindowsScreen

/-- The hot keys of the screen. -/
structure HotKeys where
  /-- The combinations of each hot key. -/
  hotKeys : Std.TreeMap ℕ (List HotKeyItem) := ∅
  /-- The ids to use again; the last one is used next. -/
  oldHotKeyIDs : List ℕ := []
  /-- The hot key that a combination is noted for. -/
  hotKeyToIDMap : HotKeyItem → Option ℕ := fun _ => none

/-- A key event of X: its key code, state and type. -/
structure XKeyEvent where
  keycode : ℕ
  state : ℕ
  /-- `some true` is `KeyPress` and `some false` is `KeyRelease`. -/
  down? : Option Bool
  deriving DecidableEq

namespace HotKeys

variable (h : HotKeys)

/-- The id of the next hot key, of type `uint32_t`, and the free ids then. -/
def nextId : ℕ × List ℕ :=
  match h.oldHotKeyIDs.getLast? with
  | some id => (id, h.oldHotKeyIDs.dropLast)
  | none => ((h.hotKeys.size + 1) % 2 ^ 32, [])

/-- Notes the combinations for the hot key. -/
def note (id : ℕ) (items : List HotKeyItem) (item : HotKeyItem) : Option ℕ :=
  if item ∈ items then some id else h.hotKeyToIDMap item

/-- Forgets the combinations, whatever they are noted for. -/
def forget (items : List HotKeyItem) (item : HotKeyItem) : Option ℕ :=
  if item ∈ items then none else h.hotKeyToIDMap item

/-- Registers a hot key and gives its id, or zero.  If there was an error the combinations that
were grabbed are given back. -/
def registerHotKey (kb : XKeyboard) (errorAt : Option ℕ) (key mask : ℕ) : HotKeys × ℕ :=
  match XWindowsScreen.grabs kb errorAt key mask with
  | none => (h, 0)
  | some (items, err) =>
    let (id, oldHotKeyIDs) := h.nextId
    if err then
      ({ hotKeys := (h.hotKeys.insert id items).erase id
         oldHotKeyIDs := oldHotKeyIDs ++ [id]
         hotKeyToIDMap := h.forget items }, 0)
    else
      ({ hotKeys := h.hotKeys.insert id items
         oldHotKeyIDs := oldHotKeyIDs
         hotKeyToIDMap := h.note id items }, id)

/-- Gives a hot key back. -/
def unregisterHotKey (id : ℕ) : HotKeys :=
  match h.hotKeys[id]? with
  | none => h
  | some items =>
    { hotKeys := h.hotKeys.erase id
      oldHotKeyIDs := h.oldHotKeyIDs ++ [id]
      hotKeyToIDMap := h.forget items }

/-- The modifiers without the one of Scroll Lock (`SCROLL_LOCK_EXCLUDE_MASK`). -/
def excludeMask : ℕ := 0xDFFF

/-- The hot key that a key event is taken for. -/
def idOf (e : XKeyEvent) : Option ℕ := h.hotKeyToIDMap (e.keycode, e.state &&& excludeMask)

/-- What the screen does with a key event.  Outside it is whether the event is taken for a hot key,
inside the hot key event that is posted, if any: the key goes down or up, and the id. -/
def onHotKey (e : XKeyEvent) (isRepeat : Bool) : Option (Option (Bool × ℕ)) :=
  match h.idOf e, e.down? with
  | some id, some down => some (if isRepeat then none else some (down, id))
  | _, _ => none

/-- There is an id for another hot key. -/
def HasId : Prop := h.oldHotKeyIDs ≠ [] ∨ h.hotKeys.size + 1 < 2 ^ 32

instance : Decidable h.HasId := inferInstanceAs (Decidable (_ ∨ _))

/-- The calls that change the hot keys. -/
inductive Act
  | register (kb : XKeyboard) (errorAt : Option ℕ) (key mask : ℕ)
  | unregister (id : ℕ)

/-- The runs of a screen. -/
def lts : LTS HotKeys Act where
  init h := h = {}
  step h
    | .register kb errorAt key mask => some (h.registerHotKey kb errorAt key mask).1
    | .unregister id => some (h.unregisterHotKey id)

/-- There is an id for a hot key that is registered. -/
def Admits : HotKeys → Act → Prop
  | h, .register .. => h.HasId
  | _, .unregister _ => True

/-- **The invariant.**  Ids are counted from one on. -/
structure Inv : Prop where
  numbered : ∃ used free, FreeIds.Numbered used free ∧ h.oldHotKeyIDs = free.map Nat.succ ∧
    ∀ id, id ∈ h.hotKeys ↔ id ∈ used.map Nat.succ
  noted : ∀ item id, h.hotKeyToIDMap item = some id →
    ∃ items, h.hotKeys[id]? = some items ∧ item ∈ items

variable {h : HotKeys} {kb : XKeyboard} {errorAt : Option ℕ} {key mask id : ℕ}
  {items : List HotKeyItem}

theorem inv_empty : Inv {} where
  numbered := ⟨[], [], FreeIds.numbered_nil, rfl, fun _ =>
    iff_of_false Std.TreeMap.not_mem_emptyc List.not_mem_nil⟩
  noted _ _ hnone := by cases hnone

/-- The hot key with the number zero does not exist. -/
theorem Inv.not_zero (hinv : h.Inv) : 0 ∉ h.hotKeys := by
  obtain ⟨used, free, -, -, hmem⟩ := hinv.numbered
  rw [hmem, List.mem_map]
  rintro ⟨i, -, hi⟩
  cases hi

/-- The next id is not in use. -/
theorem Inv.nextId (hinv : h.Inv) (hid : h.HasId) :
    h.nextId.1 ≠ 0 ∧ h.nextId.1 ∉ h.hotKeys ∧ ∃ used free i,
      FreeIds.Numbered (used ++ [i]) free ∧ h.nextId = (i + 1, free.map Nat.succ) ∧
        ∀ id, id ∈ h.hotKeys ↔ id ∈ used.map Nat.succ := by
  obtain ⟨used, free, hnumbered, hold, hmem⟩ := hinv.numbered
  have hsize : h.hotKeys.size = used.length := by
    have hnodup : (used.map Nat.succ).Nodup :=
      hnumbered.nodup.map Nat.succ_injective
    have hperm : h.hotKeys.keys.Perm (used.map Nat.succ) :=
      (List.perm_ext_iff_of_nodup Std.TreeMap.nodup_keys hnodup).2 fun id => by
        rw [Std.TreeMap.mem_keys, hmem]
    rw [← Std.TreeMap.length_keys, hperm.length_eq, List.length_map]
  obtain ⟨i, free', hnext, hi, hnumbered'⟩ : ∃ i free', h.nextId = (i + 1, free'.map Nat.succ) ∧
      i ∉ used ∧ FreeIds.Numbered (used ++ [i]) free' := by
    unfold HotKeys.nextId
    cases hlast : h.oldHotKeyIDs.getLast? with
    | none =>
      have hnil := List.getLast?_eq_none_iff.1 hlast
      have hlt := hid.resolve_left fun hne => hne hnil
      rw [hold, List.map_eq_nil_iff] at hnil
      rw [hnil] at hnumbered
      refine ⟨used.length, [], ?_, hnumbered.new⟩
      dsimp only
      rw [Nat.mod_eq_of_lt hlt, hsize]
      rfl
    | some id =>
      rw [hold, List.getLast?_map] at hlast
      obtain ⟨i, hi, rfl⟩ := Option.map_eq_some_iff.1 hlast
      obtain ⟨rest, hrest⟩ := List.getLast?_eq_some_iff.1 hi
      rw [hrest] at hnumbered
      refine ⟨i, rest, ?_, hnumbered.reuse⟩
      dsimp only
      rw [hold, hrest, List.map_append, List.map_singleton, List.dropLast_concat]
  refine ⟨by rw [hnext]; exact Nat.succ_ne_zero i, ?_, used, free', i, hnumbered', hnext, hmem⟩
  rw [hnext, hmem, List.mem_map]
  rintro ⟨j, hj, hji⟩
  exact hi (Nat.succ.inj hji ▸ hj)

/-- What registering a hot key does, from what was grabbed for it. -/
inductive Registers (h : HotKeys) : Option (List HotKeyItem × Bool) → HotKeys × ℕ → Prop
  | refused : Registers h none (h, 0)
  | failed {h' : HotKeys} {items : List HotKeyItem}
      (hotKeys : ∀ id : ℕ, h'.hotKeys[id]? = h.hotKeys[id]?)
      (noted : h'.hotKeyToIDMap = h.forget items) : Registers h (some (items, true)) (h', 0)
  | registered {h' : HotKeys} {items : List HotKeyItem} {id : ℕ} (zero : id ≠ 0)
      (fresh : id ∉ h.hotKeys)
      (hotKeys : ∀ i : ℕ, h'.hotKeys[i]? = if i = id then some items else h.hotKeys[i]?)
      (noted : h'.hotKeyToIDMap = h.note id items) : Registers h (some (items, false)) (h', id)

theorem Inv.noted_of_eq {h' : HotKeys} (hinv : h.Inv)
    (hotKeys : ∀ i : ℕ, h'.hotKeys[i]? = if i = id then some items else h.hotKeys[i]?)
    (hfresh : id ∉ h.hotKeys) (hnoted : h'.hotKeyToIDMap = h.note id items) {item : HotKeyItem}
    {i : ℕ} (hitem : h'.hotKeyToIDMap item = some i) :
    ∃ items, h'.hotKeys[i]? = some items ∧ item ∈ items := by
  rw [hnoted, note] at hitem
  rw [hotKeys]
  split_ifs at hitem with hin
  · rw [if_pos (Option.some.inj hitem).symm]
    exact ⟨items, rfl, hin⟩
  · obtain ⟨items', hitems', hmem'⟩ := hinv.noted item i hitem
    rw [if_neg]
    · exact ⟨items', hitems', hmem'⟩
    · rintro rfl
      exact hfresh (Std.TreeMap.mem_iff_isSome_getElem?.2 (by rw [hitems']; rfl))

theorem Inv.noted_of_forget {h' : HotKeys} (hinv : h.Inv)
    (hotKeys : ∀ i : ℕ, i = id ∨ h'.hotKeys[i]? = h.hotKeys[i]?)
    (hitems : h.hotKeys[id]? = some items ∨ h'.hotKeys[id]? = h.hotKeys[id]?)
    (hnoted : h'.hotKeyToIDMap = h.forget items) {item : HotKeyItem}
    {i : ℕ} (hitem : h'.hotKeyToIDMap item = some i) :
    ∃ items, h'.hotKeys[i]? = some items ∧ item ∈ items := by
  rw [hnoted, forget] at hitem
  split_ifs at hitem with hin
  obtain ⟨items', hitems', hmem'⟩ := hinv.noted item i hitem
  rcases hotKeys i with rfl | hsame
  · rcases hitems with hitems | hsame
    · rw [hitems'] at hitems
      exact absurd (Option.some.inj hitems ▸ hmem') hin
    · exact ⟨items', hsame.trans hitems', hmem'⟩
  · exact ⟨items', hsame.trans hitems', hmem'⟩

/-- Registering a hot key. -/
theorem register_spec (hinv : h.Inv) (hid : h.HasId) :
    Registers h (XWindowsScreen.grabs kb errorAt key mask)
      (h.registerHotKey kb errorAt key mask) ∧
    (h.registerHotKey kb errorAt key mask).1.Inv := by
  obtain ⟨hzero, hfresh, used, free, i, hnumbered, hnext, hmem⟩ := hinv.nextId hid
  unfold registerHotKey
  cases hgrabs : XWindowsScreen.grabs kb errorAt key mask with
  | none => exact ⟨.refused, hinv⟩
  | some grabbed =>
    obtain ⟨items, err⟩ := grabbed
    rw [hnext] at hzero hfresh ⊢
    cases err with
    | true =>
      have hsame (id : ℕ) : ((h.hotKeys.insert (i + 1) items).erase (i + 1))[id]? =
          h.hotKeys[id]? := by
        rw [Std.TreeMap.getElem?_erase, Std.TreeMap.getElem?_insert]
        simp only [compare_eq_iff_eq]
        split_ifs with heq
        · rw [← heq, Std.TreeMap.getElem?_eq_none hfresh]
        · rfl
      refine ⟨.failed hsame rfl, ⟨used, free ++ [i], hnumbered.releaseLast, ?_, fun id => ?_⟩,
        fun item id => hinv.noted_of_forget (fun id => .inr (hsame id)) (.inr (hsame (i + 1))) rfl⟩
      · show free.map Nat.succ ++ [i + 1] = _
        rw [List.map_append]
        rfl
      · show id ∈ (h.hotKeys.insert (i + 1) items).erase (i + 1) ↔ _
        rw [Std.TreeMap.mem_iff_isSome_getElem?, hsame, ← Std.TreeMap.mem_iff_isSome_getElem?, hmem]
    | false =>
      have hinsert (id : ℕ) : (h.hotKeys.insert (i + 1) items)[id]? =
          if id = i + 1 then some items else h.hotKeys[id]? := by
        rw [Std.TreeMap.getElem?_insert]
        simp only [compare_eq_iff_eq, @eq_comm ℕ]
      refine ⟨.registered hzero hfresh hinsert rfl, ⟨used ++ [i], free, hnumbered, rfl,
        fun id => ?_⟩, fun item id => hinv.noted_of_eq hinsert hfresh rfl⟩
      show id ∈ h.hotKeys.insert (i + 1) items ↔ _
      rw [Std.TreeMap.mem_insert, compare_eq_iff_eq, hmem, List.map_append, List.mem_append,
        List.map_singleton, List.mem_singleton, or_comm, eq_comm]

/-- Giving a hot key back. -/
theorem unregister_spec (hinv : h.Inv) :
    (h.unregisterHotKey id).Inv ∧
      ∀ i, (h.unregisterHotKey id).hotKeys[i]? = if i = id then none else h.hotKeys[i]? := by
  unfold unregisterHotKey
  cases hitems : h.hotKeys[id]? with
  | none =>
    refine ⟨hinv, fun i => ?_⟩
    split_ifs with hi
    · exact hi ▸ hitems
    · rfl
  | some items =>
    obtain ⟨used, free, hnumbered, hold, hmem⟩ := hinv.numbered
    have herase (i : ℕ) : (h.hotKeys.erase id)[i]? = if i = id then none else h.hotKeys[i]? := by
      rw [Std.TreeMap.getElem?_erase]
      simp only [compare_eq_iff_eq, @eq_comm ℕ]
    refine ⟨⟨?_, fun item i => hinv.noted_of_forget (fun i => ?_) (.inl hitems) rfl⟩, herase⟩
    · have hin : id ∈ h.hotKeys := Std.TreeMap.mem_iff_isSome_getElem?.2 (by rw [hitems]; rfl)
      obtain ⟨j, hj, rfl⟩ := List.mem_map.1 ((hmem id).1 hin)
      obtain ⟨before, after, rfl⟩ := List.append_of_mem hj
      have hperm : (before ++ j :: after).Perm (j :: (before ++ after)) := List.perm_middle
      obtain ⟨k, hk⟩ := hnumbered
      have hreleased := FreeIds.Numbered.release ⟨k, (hperm.symm.append_right free).trans hk⟩
      have hnodup := (hperm.nodup_iff.1 (FreeIds.Numbered.nodup ⟨k, hk⟩))
      refine ⟨before ++ after, free ++ [j], hreleased, ?_, fun i => ?_⟩
      · show h.oldHotKeyIDs ++ [j.succ] = _
        rw [hold, List.map_append]
        rfl
      · show i ∈ h.hotKeys.erase j.succ ↔ _
        rw [Std.TreeMap.mem_erase, hmem, (hperm.map Nat.succ).mem_iff, List.map_cons, List.mem_cons]
        constructor
        · rintro ⟨hne, rfl | hi⟩
          · exact absurd (compare_eq_iff_eq.2 rfl) hne
          · exact hi
        · intro hi
          refine ⟨fun heq => ?_, .inr hi⟩
          rw [compare_eq_iff_eq] at heq
          obtain ⟨i', hi', rfl⟩ := List.mem_map.1 hi
          exact (List.nodup_cons.1 hnodup).1 (Nat.succ.inj heq ▸ hi')
    · rcases eq_or_ne i id with hi | hi
      · exact .inl hi
      · exact .inr ((herase i).trans (if_neg hi))

theorem size_registerHotKey_le (h : HotKeys) :
    (h.registerHotKey kb errorAt key mask).1.hotKeys.size ≤ h.hotKeys.size + 1 := by
  unfold registerHotKey
  cases XWindowsScreen.grabs kb errorAt key mask with
  | none => exact Nat.le_succ _
  | some grabbed =>
    obtain ⟨items, err⟩ := grabbed
    have hinsert : (h.hotKeys.insert h.nextId.1 items).size ≤ h.hotKeys.size + 1 :=
      Std.TreeMap.size_insert_le
    cases err with
    | true => exact Std.TreeMap.size_erase_le.trans hinsert
    | false => exact hinsert

theorem inv_of_reachable (hs : lts.ReachableVia Admits h) : h.Inv := by
  refine hs.invariant (I := Inv) ?_ ?_
  · rintro _ rfl
    exact inv_empty
  · rintro h (⟨kb, errorAt, key, mask⟩ | id) _ hinv hadm ⟨⟩
    · exact (register_spec hinv hadm).2
    · exact (unregister_spec hinv).1

end HotKeys

end InputLeap
