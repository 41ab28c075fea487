import InputLeap.Gui.KeyText
import Mathlib.Data.List.Pairwise

/-!
# Sequences of keys as text

## Main definitions

* `Gui.KeySequence.keystroke`, `Gui.KeySequence.click` : what a sequence stands for.
* `Gui.KeySequence.Portable` : both sides know the keys of the sequence by the same text.

## Main results

* `parseModifiers_toString` : what is read for the modifiers of a sequence.
* `keystroke_iff_portable`, `click_iff_portable` : a sequence is read as what it stands for exactly
  if it is portable.
-/

namespace InputLeap

namespace Gui

namespace KeySequence

open KeyMap (modifiersLoop parseModifiers parseKey)

variable (toLower : ℕ → ℕ) {ks : KeySequence} {mods : List ℕ} {key : ℕ}

/-- The key and the modifiers that a sequence stands for. -/
def keystroke (ks : KeySequence) : Option (ℕ × ℕ) :=
  (ks.sequence.getLast?.bind (keyID toLower)).map fun id => (id, ks.mask)

/-- The button and the modifiers that a sequence stands for. -/
def click (ks : KeySequence) : Option (ℕ × ℕ) :=
  (ks.sequence.getLast?.bind buttonID).map fun button => (button, ks.mask)

/-- Each entry is one modifier that the server knows, and the key has a text that it can read; the
buttons are the left one and the one for going back. -/
def Portable (ks : KeySequence) : Prop :=
  (∀ m ∈ ks.sequence.dropLast, Single m) ∧
    ∀ key ∈ ks.sequence.getLast?,
      if key < 0x20 then key = 1 ∨ key = 8 else key < 2 ^ 25 ∧ key ∉ unreadableKeys

instance (ks : KeySequence) : Decidable ks.Portable := by
  unfold Portable
  infer_instance

/-- The text can be between parentheses. -/
def Enclosed (text : Text) : Prop :=
  ∀ c ∈ text, ConfigReadContext.isValid c = true ∧ c ≠ '#' ∧ c ≠ ')'

/-! ### The parts of a sequence -/

/-- Modifiers before a key. -/
def keysText (mods : List ℕ) (k : Text) : Text :=
  List.intercalate ['+'] (mods.map (keyToString toLower) ++ [k])

variable {toLower}

@[simp] theorem keysText_nil (k : Text) : keysText toLower [] k = k := List.intercalate_singleton

@[simp] theorem keysText_cons (m : ℕ) (mods : List ℕ) (k : Text) :
    keysText toLower (m :: mods) k = keyToString toLower m ++ '+' :: keysText toLower mods k := by
  have hne : mods.map (keyToString toLower) ++ [k] ≠ [] := by simp
  obtain ⟨x, xs, heq⟩ := List.exists_cons_of_ne_nil hne
  rw [keysText, keysText, List.map_cons, List.cons_append, heq, List.intercalate_cons_cons,
    List.append_assoc, List.singleton_append]

theorem Shaped.toString_eq (hs : Shaped toLower ks mods key) :
    ks.toString toLower = keysText toLower mods (keyToString toLower key) := by
  rw [KeySequence.toString, hs.sequence, List.map_append, List.map_singleton, keysText]

theorem Shaped.getLast?_eq (hs : Shaped toLower ks mods key) : ks.sequence.getLast? = some key := by
  rw [hs.sequence, List.getLast?_concat]

theorem Shaped.dropLast_eq (hs : Shaped toLower ks mods key) : ks.sequence.dropLast = mods := by
  rw [hs.sequence, List.dropLast_concat]

theorem Shaped.isMouseButton_eq (hs : Shaped toLower ks mods key) :
    ks.isMouseButton = decide (key < 0x20) := by
  rw [isMouseButton, hs.getLast?_eq]
  rfl

theorem mem_keysText {k : Text} {c : Char} :
    c ∈ keysText toLower mods k ↔
      (∃ m ∈ mods, c ∈ keyToString toLower m ∨ c = '+') ∨ c ∈ k := by
  induction mods with
  | nil => simp
  | cons m mods ih =>
    rw [keysText_cons, List.mem_append, List.mem_cons, ih]
    simp only [List.mem_cons, exists_eq_or_imp, or_assoc]

/-! ### Masks -/

theorem firstMask_of_single {m : ℕ} (h : Single m) : firstMask m = modifierMask m := by
  unfold Single modifierMask at h
  unfold firstMask modifierMask
  revert h
  cases m.testBit 25 <;> cases m.testBit 26 <;> cases m.testBit 27 <;> cases m.testBit 28 <;> decide

theorem single_of_firstMask {m : ℕ} (hne : firstMask m ≠ 0) (h : firstMask m = modifierMask m) :
    Single m := by
  unfold firstMask at hne
  unfold firstMask modifierMask at h
  unfold Single modifierMask
  revert h hne
  cases m.testBit 25 <;> cases m.testBit 26 <;> cases m.testBit 27 <;> cases m.testBit 28 <;> decide

theorem testBit_ite (b : Bool) (i j : ℕ) :
    (if b then 2 ^ i else 0).testBit j = (b && decide (i = j)) := by
  cases b with
  | false => exact Nat.zero_testBit j
  | true => exact Nat.testBit_two_pow

theorem testBit_modifierMask (m j : ℕ) :
    (modifierMask m).testBit j = (decide (j < 4) && m.testBit (25 + j)) := by
  show ((if m.testBit 25 then 2 ^ 0 else 0) ||| (if m.testBit 26 then 2 ^ 1 else 0) |||
    (if m.testBit 27 then 2 ^ 2 else 0) ||| (if m.testBit 28 then 2 ^ 3 else 0)).testBit j = _
  simp only [Nat.testBit_or, testBit_ite]
  match j with
  | 0 | 1 | 2 | 3 => simp
  | j + 4 => simp

/-- The modifier that is written is one of those of the entry. -/
theorem testBit_firstMask {m j : ℕ} (h : (firstMask m).testBit j = true) :
    (modifierMask m).testBit j = true := by
  rw [testBit_modifierMask]
  unfold firstMask at h
  split_ifs at h with h25 h26 h27 h28
  · obtain rfl : 0 = j := by simpa using (Nat.testBit_two_pow (n := 0)).symm.trans h
    simpa using h25
  · obtain rfl : 1 = j := by simpa using (Nat.testBit_two_pow (n := 1)).symm.trans h
    simpa using h26
  · obtain rfl : 2 = j := by simpa using (Nat.testBit_two_pow (n := 2)).symm.trans h
    simpa using h27
  · obtain rfl : 3 = j := by simpa using (Nat.testBit_two_pow (n := 3)).symm.trans h
    simpa using h28
  · rw [Nat.zero_testBit] at h
    cases h

instance : Std.Symm Apart where
  symm m m' h n hn := by
    cases hm : m.testBit n with
    | false => rfl
    | true => exact absurd ((h n hm).symm.trans hn) Bool.false_ne_true

/-- Entries that are apart are written as different modifiers. -/
theorem firstMask_and {m m' : ℕ} (h : Apart m m') : firstMask m &&& firstMask m' = 0 := by
  refine Nat.eq_of_testBit_eq fun j => ?_
  rw [Nat.testBit_and, Nat.zero_testBit, Bool.and_eq_false_iff]
  by_contra hboth
  rw [not_or, Bool.not_eq_false, Bool.not_eq_false] at hboth
  have hm := testBit_firstMask hboth.1
  have hm' := testBit_firstMask hboth.2
  rw [testBit_modifierMask, Bool.and_eq_true] at hm hm'
  exact Bool.false_ne_true ((h _ hm.2).symm.trans hm'.2)

theorem testBit_foldl (f : ℕ → ℕ) (mods : List ℕ) (mask n : ℕ) :
    (mods.foldl (fun a m => a ||| f m) mask).testBit n =
      (mask.testBit n || mods.any fun m => (f m).testBit n) := by
  induction mods generalizing mask with
  | nil => simp
  | cons m mods ih => rw [List.foldl_cons, ih, Nat.testBit_or, List.any_cons, Bool.or_assoc]

/-- The masks of sequences agree only where each entry is one modifier. -/
theorem foldl_firstMask_iff (happart : mods.Pairwise Apart) (hne : ∀ m ∈ mods, firstMask m ≠ 0) :
    mods.foldl (fun a m => a ||| firstMask m) 0 = mods.foldl (fun a m => a ||| modifierMask m) 0 ↔
      ∀ m ∈ mods, Single m := by
  constructor
  · intro heq m hm
    refine single_of_firstMask (hne m hm) (Nat.eq_of_testBit_eq fun j => ?_)
    refine Bool.eq_iff_iff.2 ⟨testBit_firstMask, fun hj => ?_⟩
    -- Another entry with this bit is not apart from `m`.
    have hbit : (mods.foldl (fun a m => a ||| firstMask m) 0).testBit j = true := by
      rw [heq, testBit_foldl, Nat.zero_testBit, Bool.false_or]
      exact List.any_eq_true.2 ⟨m, hm, hj⟩
    rw [testBit_foldl, Nat.zero_testBit, Bool.false_or] at hbit
    obtain ⟨m', hm', hj'⟩ := List.any_eq_true.1 hbit
    by_cases hsame : m = m'
    · rw [hsame]
      exact hj'
    · have hbits := testBit_firstMask hj'
      rw [testBit_modifierMask, Bool.and_eq_true] at hj hbits
      have happ := happart.forall hm hm' hsame
      exact absurd ((happ _ hj.2).symm.trans hbits.2) Bool.false_ne_true
  · intro hsingle
    refine List.foldl_ext _ _ _ fun a m hm => ?_
    rw [firstMask_of_single (hsingle m hm)]

/-! ### Reading modifiers -/

/-- What can start a name or a key. -/
theorem modifierText_spec : ∀ mask ∈ [1, 2, 4, 8], modifierText mask ≠ [] ∧
    (∀ c ∈ modifierText mask, KeyMap.endsModifier c = false) ∧
    KeyMap.find KeyMap.modifierNames (modifierText mask) = some mask := by
  decide +kernel

theorem not_isBlank_of_graph {c : Char} (h : KeyMap.isGraph c = true) : Text.isBlank c = false := by
  rw [Text.isBlank, Bool.or_eq_false_iff, beq_eq_false_iff_ne, beq_eq_false_iff_ne]
  constructor
  · rintro rfl
    exact absurd h (by decide)
  · rintro rfl
    exact absurd h (by decide)

/-- The entries are written as modifiers, or not at all. -/
def Named (toLower : ℕ → ℕ) (mods : List ℕ) : Prop :=
  ∀ m ∈ mods, firstMask m ∈ [1, 2, 4, 8] ∧ keyToString toLower m = modifierText (firstMask m) ∨
    firstMask m = 0 ∧ keyToString toLower m = []

theorem head?_keysText (hnamed : Named toLower mods) {k : Text}
    (hk : ∀ c ∈ k.head?, Text.isBlank c = false) :
    ∀ c ∈ (keysText toLower mods k).head?, Text.isBlank c = false := by
  cases mods with
  | nil => rwa [keysText_nil]
  | cons m mods =>
    intro c hc
    rw [keysText_cons] at hc
    rcases hnamed m List.mem_cons_self with ⟨hmem, heq⟩ | ⟨-, heq⟩
    · obtain ⟨hne, hends, -⟩ := modifierText_spec _ hmem
      obtain ⟨x, xs, hx⟩ := List.exists_cons_of_ne_nil hne
      have hxend := hends x (by rw [hx]; exact List.mem_cons_self)
      rw [heq, hx] at hc
      obtain rfl := Option.some.inj hc
      rw [KeyMap.endsModifier, Bool.or_eq_false_iff, Bool.or_eq_false_iff] at hxend
      exact hxend.1.1
    · rw [heq] at hc
      cases hc
      rfl

/-- The modifiers of a sequence are read one after the other. -/
theorem modifiersLoop_keysText (hnamed : Named toLower mods) (happart : mods.Pairwise Apart)
    {mask : ℕ} (hmask : ∀ m ∈ mods, mask &&& firstMask m = 0) {k : Text}
    (hk : ∀ c ∈ k.head?, Text.isBlank c = false) :
    modifiersLoop mask (keysText toLower mods k) =
      if ∀ m ∈ mods, firstMask m ≠ 0 then
        modifiersLoop (mods.foldl (fun a m => a ||| firstMask m) mask) k
      else none := by
  induction mods generalizing mask with
  | nil => rw [keysText_nil, if_pos (fun _ hm => (by cases hm)), List.foldl_nil]
  | cons m mods ih =>
    obtain ⟨hm, hnamed⟩ := List.forall_mem_cons.1 hnamed
    obtain ⟨hfirst, happart⟩ := List.pairwise_cons.1 happart
    obtain ⟨hmaskm, hmask⟩ := List.forall_mem_cons.1 hmask
    rw [keysText_cons]
    rcases hm with ⟨hmem, heq⟩ | ⟨hzero, heq⟩
    · obtain ⟨hne, hends, hfind⟩ := modifierText_spec _ hmem
      have hpos : firstMask m ≠ 0 := by
        intro h0
        rw [h0] at hmem
        exact absurd hmem (by decide)
      have hmask' : ∀ m' ∈ mods, (mask ||| firstMask m) &&& firstMask m' = 0 := by
        intro m' hm'
        rw [Nat.and_or_distrib_right, hmask m' hm', firstMask_and (hfirst m' hm')]
        rfl
      rw [heq, KeyMap.modifiersLoop_append hne hends hfind hmaskm,
        Text.dropWhile_of_head (head?_keysText hnamed hk), ih hnamed happart hmask',
        List.foldl_cons]
      simp only [List.forall_mem_cons, hpos, ne_eq, not_false_iff, true_and]
    · rw [heq, List.nil_append, KeyMap.modifiersLoop_missing (by rfl), if_neg]
      exact fun h => h m List.mem_cons_self hzero

/-- Text between parentheses has no entries but these. -/
theorem named_of_enclosed (hs : Shaped toLower ks mods key)
    (henclosed : Enclosed (ks.toString toLower)) : Named toLower mods := by
  intro m hm
  rcases keyToString_modifiers toLower (hs.modifiers m hm) with h | ⟨hzero, hnul | hempty⟩
  · exact .inl h
  · have hmem : Char.ofNat 0 ∈ ks.toString toLower := by
      rw [hs.toString_eq]
      refine mem_keysText.2 (.inl ⟨m, hm, .inl ?_⟩)
      rw [hnul]
      exact List.mem_singleton_self _
    exact absurd (henclosed _ hmem).1 (by decide)
  · exact .inr ⟨hzero, hempty⟩

/-- What is read for the modifiers of a sequence. -/
theorem parseModifiers_toString (hs : Shaped toLower ks mods key)
    (henclosed : Enclosed (ks.toString toLower))
    (hkey : ∀ c ∈ (keyToString toLower key).head?, Text.isBlank c = false) :
    parseModifiers (ks.toString toLower) =
      if ∀ m ∈ mods, firstMask m ≠ 0 then
        modifiersLoop (mods.foldl (fun a m => a ||| firstMask m) 0) (keyToString toLower key)
      else none := by
  have hnamed := named_of_enclosed hs henclosed
  rw [parseModifiers, hs.toString_eq, Text.dropWhile_of_head (head?_keysText hnamed hkey)]
  exact modifiersLoop_keysText hnamed hs.apart (fun m _ => Nat.zero_and _) hkey

/-! ### Reading keys -/

theorem not_isBlank_of_plain {c : Char} (h : isPlain c = true) : Text.isBlank c = false := by
  exact not_isBlank_of_graph (isGraph_of_plain h)

theorem not_endsModifier_of_plain {c : Char} (h : isPlain c = true) :
    KeyMap.endsModifier c = false := by
  have hblank := not_isBlank_of_plain h
  simp only [isPlain, Bool.and_eq_true, bne_iff_ne] at h
  simp [KeyMap.endsModifier, hblank, h.1.2, h.2]

theorem enclosed_of_plain {c : Char} (h : isPlain c = true) :
    ConfigReadContext.isValid c = true ∧ c ≠ '#' ∧ c ≠ ')' := by
  simp only [isPlain, Bool.and_eq_true, bne_iff_ne] at h
  exact ⟨by simp [ConfigReadContext.isValid, h.1.1.1.1], h.1.1.2, h.1.2⟩

theorem head?_of_bare {text : Text} (h : Bare text) : ∀ c ∈ text.head?, Text.isBlank c = false :=
  fun c hc => not_isBlank_of_plain (h.2.1 c (List.mem_of_mem_head? hc))

/-- A key is what is left behind the modifiers. -/
theorem parseModifiers_bare (hs : Shaped toLower ks mods key)
    (henclosed : Enclosed (ks.toString toLower)) (hbare : Bare (keyToString toLower key)) :
    parseModifiers (ks.toString toLower) =
      if ∀ m ∈ mods, firstMask m ≠ 0 then
        some (mods.foldl (fun a m => a ||| firstMask m) 0, keyToString toLower key)
      else none := by
  rw [parseModifiers_toString hs henclosed (head?_of_bare hbare)]
  obtain ⟨hne, hplain, hfind⟩ := hbare
  rw [KeyMap.modifiersLoop_key hne (fun c hc => not_endsModifier_of_plain (hplain c hc)) hfind,
    Text.trim_of_noBlank fun c hc => not_isBlank_of_plain (hplain c hc)]

theorem modifierText_plain : ∀ mask ∈ [1, 2, 4, 8], ∀ c ∈ modifierText mask, isPlain c = true := by
  decide

/-- Modifiers that the server knows do not break the line. -/
theorem enclosed_of_single (hs : Shaped toLower ks mods key) (hsingle : ∀ m ∈ mods, Single m)
    (hbare : Bare (keyToString toLower key)) : Enclosed (ks.toString toLower) := by
  intro c hc
  rw [hs.toString_eq] at hc
  rcases mem_keysText.1 hc with ⟨m, hm, hc | rfl⟩ | hc
  · have hmask : firstMask m ∈ [1, 2, 4, 8] := by
      rw [firstMask_of_single (hsingle m hm)]
      exact hsingle m hm
    rcases keyToString_modifiers toLower (hs.modifiers m hm) with ⟨-, heq⟩ | ⟨hzero, -⟩
    · rw [heq] at hc
      exact enclosed_of_plain (modifierText_plain _ hmask c hc)
    · rw [hzero] at hmask
      exact absurd hmask (by decide)
  · decide
  · exact enclosed_of_plain (hbare.2.1 c hc)

theorem mask_eq (hs : Shaped toLower ks mods key) :
    ks.mask = mods.foldl (fun a m => a ||| modifierMask m) 0 := by
  rw [mask, hs.dropLast_eq, List.foldl_map]

/-- The modifiers are read as they are meant exactly if each entry is one that the server knows. -/
theorem parseModifiers_iff (hs : Shaped toLower ks mods key)
    (henclosed : Enclosed (ks.toString toLower)) (hbare : Bare (keyToString toLower key)) :
    parseModifiers (ks.toString toLower) = some (ks.mask, keyToString toLower key) ↔
      ∀ m ∈ mods, Single m := by
  rw [parseModifiers_bare hs henclosed hbare, mask_eq hs]
  constructor
  · intro h
    split_ifs at h with hne
    exact (foldl_firstMask_iff hs.apart hne).1 (congrArg Prod.fst (Option.some.inj h))
  · intro hsingle
    have hne : ∀ m ∈ mods, firstMask m ≠ 0 := by
      intro m hm hzero
      have := hsingle m hm
      rw [Single, ← firstMask_of_single this, hzero] at this
      exact absurd this (by decide)
    rw [if_pos hne, (foldl_firstMask_iff hs.apart hne).2 hsingle]

/-! ### Keystrokes -/

variable {screens : Std.TreeSet String}

/-- A keystroke has nothing but a key, modifiers and screens. -/
theorem parseKeystroke_eq {text : Text} {info : InputFilter.KeyInfo}
    (h : ConfigReadContext.parseKeystroke text screens = some info) :
    info = ⟨info.key, info.mask, 0, 0, ConfigReadContext.join screens⟩ := by
  unfold ConfigReadContext.parseKeystroke at h
  split at h
  · cases h
  · split at h
    · cases h
    · split_ifs at h
      cases h
      rfl

/-- A text between parentheses is not that of a parenthesis, a comment or no text at all, and a
plus is not read as a key. -/
theorem not_unreadable (hs : Shaped toLower ks mods key) (hkey : 0x20 ≤ key) (hhigh : key < 2 ^ 25)
    (henclosed : Enclosed (ks.toString toLower))
    (hread : ConfigReadContext.parseKeystroke (ks.toString toLower) screens ≠ none) :
    key ∉ unreadableKeys := by
  have htext := keyToString_of_lt toLower hkey hhigh
  have hmem (c : Char) (hc : c ∈ keyToString toLower key) : c ∈ ks.toString toLower := by
    rw [hs.toString_eq]
    exact mem_keysText.2 (.inr hc)
  intro hbad
  simp only [unreadableKeys, List.mem_cons, List.not_mem_nil, or_false] at hbad
  rcases hbad with rfl | rfl | rfl | rfl
  all_goals rw [keyName_eq toLower (.inl (by decide))] at htext
  · exact (henclosed '#' (hmem _ (by rw [htext]; decide))).2.1 rfl
  · exact (henclosed ')' (hmem _ (by rw [htext]; decide))).2.2 rfl
  · have hplus : keyToString toLower 0x2b = ['+'] := htext.trans (by decide)
    have hnone : parseModifiers (ks.toString toLower) = none := by
      rw [parseModifiers_toString hs henclosed (by rw [hplus]; intro c hc; cases hc; rfl), hplus,
        KeyMap.modifiersLoop_missing (by rfl), ite_self]
    refine hread ?_
    rw [ConfigReadContext.parseKeystroke, hnone]
  · exact absurd (henclosed (Char.ofNat 0x7f) (hmem _ (by rw [htext]; decide))).1 (by decide)

variable (screens) in
/-- **A keystroke is read as it is meant** exactly if it is portable. -/
theorem keystroke_iff_portable (hlower : LowersCode toLower) (hs : Shaped toLower ks mods key)
    (hkey : 0x20 ≤ key) :
    (Enclosed (ks.toString toLower) ∧ ∃ info ∈ ks.keystroke toLower,
        ConfigReadContext.parseKeystroke (ks.toString toLower) screens =
          some ⟨info.1, info.2, 0, 0, ConfigReadContext.join screens⟩) ↔
      ks.Portable := by
  rw [Portable, hs.dropLast_eq, keystroke, hs.getLast?_eq, Option.bind_some]
  simp only [Option.mem_def, Option.some.injEq, forall_eq', if_neg hkey.not_gt]
  -- The key part of a sequence that has a readable key.
  have hreadable (hhigh : key < 2 ^ 25) (hbad : key ∉ unreadableKeys) :
      ∃ n ∈ keyID toLower key, Readable (keyToString toLower key) n := by
    have htext := keyToString_of_lt toLower hkey hhigh
    have hne := hs.text
    rw [htext] at hne ⊢
    exact readable_keyName hlower hkey hne hbad
  constructor
  · rintro ⟨henclosed, info, hinfo, hparse⟩
    obtain ⟨i, hi, rfl⟩ := Option.map_eq_some_iff.1 hinfo
    have hhigh : key < 2 ^ 25 := by
      -- Two buttons have the numbers of modifiers.
      have hnone : keyID id (2 ^ 25) = none ∧ keyID id (2 ^ 26) = none := by decide +kernel
      obtain h | rfl | rfl := hs.range.2
      · exact h
      · rw [keyID_eq toLower (.inr (by decide)), hnone.1] at hi
        cases hi
      · rw [keyID_eq toLower (.inr (by decide)), hnone.2] at hi
        cases hi
    have hbad :=
      not_unreadable hs hkey hhigh henclosed (by rw [hparse]; exact Option.some_ne_none _)
    obtain ⟨n, -, hbare, hkeyread, -⟩ := hreadable hhigh hbad
    refine ⟨(parseModifiers_iff hs henclosed hbare).1 ?_, hhigh, hbad⟩
    rw [ConfigReadContext.parseKeystroke, parseModifiers_bare hs henclosed hbare] at hparse
    rw [parseModifiers_bare hs henclosed hbare]
    by_cases hall : ∀ m ∈ mods, firstMask m ≠ 0
    · rw [if_pos hall] at hparse ⊢
      dsimp only at hparse
      rw [hkeyread] at hparse
      dsimp only at hparse
      split_ifs at hparse
      have hmask := congrArg InputFilter.KeyInfo.mask (Option.some.inj hparse)
      exact congrArg (fun mask => some (mask, keyToString toLower key)) hmask
    · rw [if_neg hall] at hparse
      cases hparse
  · rintro ⟨hsingle, hhigh, hbad⟩
    obtain ⟨n, hn, hbare, hkeyread, hpos⟩ := hreadable hhigh hbad
    have henclosed := enclosed_of_single hs hsingle hbare
    refine ⟨henclosed, (n, ks.mask), Option.map_eq_some_iff.2 ⟨n, hn, rfl⟩, ?_⟩
    rw [ConfigReadContext.parseKeystroke, (parseModifiers_iff hs henclosed hbare).2 hsingle]
    dsimp only
    rw [hkeyread]
    exact if_neg fun h => hpos h.1

/-! ### Clicks -/

theorem bare_button : ∀ key < 0x20, 0 < key → Bare (keyToString id key) := by
  decide +kernel

/-- The number of a button is read as the button itself for the left one and the one for going
back only. -/
theorem strtol_button : ∀ key < 0x20, 0 < key →
    (Text.strtol 10 (keyToString id key)).2 = [] ∧
    ((Text.strtol 10 (keyToString id key)).1 % 2 ^ 8).toNat ≠ 0 ∧
    (buttonID key = some ((Text.strtol 10 (keyToString id key)).1 % 2 ^ 8).toNat ↔
      key = 1 ∨ key = 8) := by
  decide +kernel

/-- **A click is read as it is meant** exactly if it is portable. -/
theorem click_iff_portable (hs : Shaped toLower ks mods key) (hkey : key < 0x20) :
    (Enclosed (ks.toString toLower) ∧ ∃ info ∈ ks.click,
        ConfigReadContext.parseMouse (ks.toString toLower) = some info) ↔
      ks.Portable := by
  rw [Portable, hs.dropLast_eq, click, hs.getLast?_eq, Option.bind_some]
  simp only [Option.mem_def, Option.some.injEq, forall_eq', if_pos hkey]
  have htext := keyToString_button toLower hkey
  have hbare : Bare (keyToString toLower key) := by
    rw [htext]
    exact bare_button key hkey hs.range.1
  obtain ⟨hrest, hne, hbutton⟩ := strtol_button key hkey hs.range.1
  rw [← htext] at hrest hne hbutton
  rw [← hbutton]
  constructor
  · rintro ⟨henclosed, info, hinfo, hparse⟩
    obtain ⟨button, hid, rfl⟩ := Option.map_eq_some_iff.1 hinfo
    rw [ConfigReadContext.parseMouse, parseModifiers_bare hs henclosed hbare] at hparse
    rw [← parseModifiers_iff hs henclosed hbare, parseModifiers_bare hs henclosed hbare]
    by_cases hall : ∀ m ∈ mods, firstMask m ≠ 0
    · rw [if_pos hall] at hparse ⊢
      dsimp only at hparse
      rw [if_neg (not_not.2 hrest), if_neg (not_or.2 ⟨hs.text, hne⟩)] at hparse
      obtain ⟨hb, hmask⟩ := Prod.mk.inj (Option.some.inj hparse)
      exact ⟨congrArg (fun mask => some (mask, keyToString toLower key)) hmask,
        hid.trans (by rw [hb])⟩
    · rw [if_neg hall] at hparse
      cases hparse
  · rintro ⟨hsingle, hid⟩
    have henclosed := enclosed_of_single hs hsingle hbare
    refine ⟨henclosed, _, Option.map_eq_some_iff.2 ⟨_, hid, rfl⟩, ?_⟩
    rw [ConfigReadContext.parseMouse, (parseModifiers_iff hs henclosed hbare).2 hsingle]
    dsimp only
    rw [if_neg (not_not.2 hrest), if_neg (not_or.2 ⟨hs.text, hne⟩)]

end KeySequence

end Gui

end InputLeap
