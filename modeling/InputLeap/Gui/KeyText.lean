import InputLeap.Config.RuleReader
import InputLeap.Gui.Hotkey
import Mathlib.Algebra.Order.Ring.Nat

/-!
# The keys of a hotkey as text

What the GUI writes for a recorded sequence of keys, and what the server reads.

## Main definitions

* `Gui.KeySequence.mask`, `Gui.keyID`, `Gui.buttonID` : the modifiers, the key and the button that
  a sequence stands for.
* `Gui.KeySequence.Shaped` : what a recorded sequence looks like.

## Main results

* `shaped_of_recorded` : recorded sequences look like that.
-/

namespace InputLeap

namespace Gui

/-! ### Meaning -/

/-- The modifiers of an entry of a sequence (`Qt::KeyboardModifiers`) as the server knows them. -/
def modifierMask (m : ℕ) : ℕ :=
  (if m.testBit 25 then 0x0001 else 0) ||| (if m.testBit 26 then 0x0002 else 0) |||
    (if m.testBit 27 then 0x0004 else 0) ||| (if m.testBit 28 then 0x0008 else 0)

/-- The keys (`Qt::Key`) that are not characters, and how the server knows them (`KeyID`). -/
def specialKeys : List (ℕ × ℕ) :=
  [(0x01000000, 0xef1b), (0x01000001, 0xef09), (0x01000002, 0xee20), (0x01000003, 0xef08),
    (0x01000004, 0xef0d), (0x01000005, 0xef8d), (0x01000006, 0xef63), (0x01000007, 0xefff),
    (0x01000008, 0xef13), (0x01000009, 0xef61), (0x0100000a, 0xef15), (0x0100000b, 0xef0b),
    (0x01000010, 0xef50), (0x01000011, 0xef57), (0x01000012, 0xef51), (0x01000013, 0xef52),
    (0x01000014, 0xef53), (0x01000015, 0xef54), (0x01000016, 0xef55), (0x01000017, 0xef56),
    (0x01000024, 0xefe5), (0x01000025, 0xef7f), (0x01000026, 0xef14), (0x01000055, 0xef67),
    (0x01000058, 0xef6a), (0x01000061, 0xe0a6), (0x01000062, 0xe0a7), (0x01000063, 0xe0a9),
    (0x01000064, 0xe0a8), (0x01000070, 0xe0ae), (0x01000071, 0xe0ad), (0x01000072, 0xe0af),
    (0x01000080, 0xe0b3), (0x01000081, 0xe0b2), (0x01000082, 0xe0b1), (0x01000083, 0xe0b0),
    (0x01000090, 0xe0ac), (0x01000091, 0xe0ab), (0x01000092, 0xe0aa), (0x01000093, 0xe05f),
    (0x010000a0, 0xe0b4), (0x010000a1, 0xe0b5), (0x010000a2, 0xe0b6), (0x010000a3, 0xe0b7),
    (0x01010000, 0xef60)]

/-- `kKeyF1`. -/
def keyIDF1 : ℕ := 0xefbe

variable (toLower : ℕ → ℕ)

/-- How the server knows the key: characters by the code of their lower case. -/
def keyID (key : ℕ) : Option ℕ :=
  match specialKeys.find? (·.1 == key) with
  | some (_, id) => some id
  | none =>
    if key < 0x80 then some (Char.ofNat key).toLower.toNat
    else if keyF1 ≤ key ∧ key ≤ keyF1 + 34 then some (keyIDF1 + (key - keyF1))
    else if key < 0x10000 then some (toLower key)
    else none

/-- How the server knows the button (`Qt::MouseButton`): left, right, middle, back and forward. -/
def buttonID (button : ℕ) : Option ℕ :=
  match button with
  | 1 => some 1
  | 2 => some 3
  | 4 => some 2
  | 8 => some 4
  | 16 => some 5
  | _ => none

namespace KeySequence

/-- The modifiers of the sequence. -/
def mask (ks : KeySequence) : ℕ :=
  (ks.sequence.dropLast.map modifierMask).foldl (· ||| ·) 0

/-! ### Recorded sequences -/

/-- The number has some of the bits of `Qt::KeyboardModifiers`, and no others. -/
def Modifiers (m : ℕ) : Prop := m ≠ 0 ∧ ∀ n, m.testBit n = true → 25 ≤ n ∧ n < 31

/-- The numbers have no bit in common. -/
def Apart (m m' : ℕ) : Prop := ∀ n, m.testBit n = true → m'.testBit n = false

/-- A number that `appendKey` is given for a key or a button. -/
def Pressed (key : ℕ) : Prop := 0 < key ∧ (key < 2 ^ 25 ∨ key = 2 ^ 25 ∨ key = 2 ^ 26)

/-- Modifiers, all different ones, and a key or a button. -/
structure Shaped (ks : KeySequence) (mods : List ℕ) (key : ℕ) : Prop where
  sequence : ks.sequence = mods ++ [key]
  modifiers : ∀ m ∈ mods, Modifiers m
  apart : mods.Pairwise Apart
  text : keyToString toLower key ≠ []
  range : Pressed key

/-- A sequence while it is recorded. -/
structure Partial (ks : KeySequence) : Prop where
  isValid : ks.isValid = false
  modifiers : ∀ m ∈ ks.sequence, Modifiers m
  apart : ks.sequence.Pairwise Apart
  known : ∀ m ∈ ks.sequence, ∀ n, m.testBit n = true → ks.modifiers.testBit n = true

theorem partial_empty : Partial {} :=
  ⟨rfl, fun _ hm => (by cases hm), .nil, fun _ hm => (by cases hm)⟩

section

variable {ks : KeySequence} {modifiers : ℕ}

/-- The modifiers that are new become an entry of the sequence. -/
theorem Partial.append (h : Partial ks) (hmods : ∀ n, modifiers.testBit n = true → 25 ≤ n ∧ n < 31)
    (hnew : modifiers.ldiff ks.modifiers ≠ 0) :
    Partial { ks with
      sequence := ks.sequence ++ [modifiers.ldiff ks.modifiers]
      modifiers := ks.modifiers ||| modifiers.ldiff ks.modifiers } := by
  have hbit (n : ℕ) : (modifiers.ldiff ks.modifiers).testBit n =
      (modifiers.testBit n && !ks.modifiers.testBit n) := Nat.testBit_ldiff ..
  refine ⟨h.isValid, fun m hm => ?_, ?_, fun m hm n hn => ?_⟩
  · rcases List.mem_append.1 hm with hm | hm
    · exact h.modifiers m hm
    · obtain rfl := List.mem_singleton.1 hm
      refine ⟨hnew, fun n hn => hmods n ?_⟩
      rw [hbit, Bool.and_eq_true] at hn
      exact hn.1
  · refine List.pairwise_append.2 ⟨h.apart, List.pairwise_singleton .., ?_⟩
    intro m hm m' hm' n hn
    obtain rfl := List.mem_singleton.1 hm'
    rw [hbit, h.known m hm n hn, Bool.not_true, Bool.and_false]
  · show (ks.modifiers ||| _).testBit n = true
    rw [Nat.testBit_or, Bool.or_eq_true]
    rcases List.mem_append.1 hm with hm | hm
    · exact .inl (h.known m hm n hn)
    · obtain rfl := List.mem_singleton.1 hm
      exact .inr hn

end

variable {toLower} {ks ks' : KeySequence} {key modifiers : ℕ}

/-- A key goes on with the recording, or ends it. -/
theorem Partial.appendKey (h : Partial ks) (hkey : Pressed key)
    (hmods : ∀ n, modifiers.testBit n = true → 25 ≤ n ∧ n < 31) :
    (∃ ks', ks.appendKey toLower key modifiers = (false, ks') ∧ Partial ks') ∨
    ∃ ks', ks.appendKey toLower key modifiers = (true, ks') ∧
      (ks'.isValid = true → ∃ mods key, Shaped toLower ks' mods key) := by
  unfold KeySequence.appendKey
  by_cases hfull : ks.sequence.length = 4
  · refine .inr ⟨ks, if_pos hfull, fun hvalid => ?_⟩
    rw [h.isValid] at hvalid
    cases hvalid
  rw [if_neg hfull]
  by_cases haltGr : key = keyAltGr
  · exact .inl ⟨ks, if_pos haltGr, h⟩
  rw [if_neg haltGr]
  by_cases hmod : key ∈ modifierKeys
  · rw [if_pos hmod]
    by_cases hnew : modifiers.ldiff ks.modifiers = 0
    · exact .inl ⟨ks, if_neg (not_not.2 hnew), h⟩
    · exact .inl ⟨_, if_pos hnew, h.append hmods hnew⟩
  rw [if_neg hmod]
  by_cases htext : keyToString toLower key = []
  · exact .inl ⟨ks, if_pos htext, h⟩
  · exact .inr ⟨_, if_neg htext, fun _ =>
      ⟨ks.sequence, key, rfl, h.modifiers, h.apart, htext, hkey⟩⟩

variable (toLower) in
theorem possible_press {p : Press} (hp : p.Possible) :
    ∃ key modifiers, (∀ ks : KeySequence, ks.press toLower p = ks.appendKey toLower key modifiers) ∧
      Pressed key ∧ ∀ n, modifiers.testBit n = true → 25 ≤ n ∧ n < 31 := by
  cases p with
  | key k m =>
    obtain ⟨hlow, hhigh, hm⟩ := hp
    exact ⟨k, m, fun _ => rfl, ⟨by omega, .inl hhigh⟩, hm⟩
  | mouse b =>
    obtain ⟨i, hi, rfl⟩ := hp
    refine ⟨2 ^ i, 0, fun _ => rfl, ⟨Nat.two_pow_pos i, ?_⟩, fun n hn => ?_⟩
    · obtain hlt | rfl | rfl : i < 25 ∨ i = 25 ∨ i = 26 := by omega
      · exact .inl (Nat.pow_lt_pow_right (by decide) hlt)
      · exact .inr (.inl rfl)
      · exact .inr (.inr rfl)
    · rw [Nat.zero_testBit] at hn
      cases hn

/-- **Recorded sequences** are modifiers and a key. -/
theorem shaped_of_recorded (h : Recorded toLower ks) : ∃ mods key, Shaped toLower ks mods key := by
  obtain ⟨ps, hps, hrecord⟩ := h
  have hpartial := partial_empty
  generalize ({} : KeySequence) = ks₀ at hrecord hpartial
  induction ps generalizing ks₀ with
  | nil => cases hrecord
  | cons p ps ih =>
    obtain ⟨hp, hps⟩ := List.forall_mem_cons.1 hps
    obtain ⟨key, modifiers, hpress, hkey, hmods⟩ := possible_press toLower hp
    unfold record at hrecord
    rw [hpress] at hrecord
    rcases hpartial.appendKey hkey hmods with ⟨ks', heq, h'⟩ | ⟨ks', heq, h'⟩
    · rw [heq] at hrecord
      exact ih hps ks' hrecord h'
    · rw [heq] at hrecord
      dsimp only at hrecord
      split_ifs at hrecord with hvalid
      cases hrecord
      exact h' hvalid

end KeySequence

/-! ### Keys as text -/

/-- Only characters that are not ASCII have a lower case that is not known. -/
theorem keyName_eq {key : ℕ} (h : key < 0x80 ∨ 0x10000 ≤ key) :
    keyName toLower key = keyName id key := by
  unfold keyName
  split
  · rfl
  · rcases h with hlow | hhigh
    · rw [if_pos hlow, if_pos hlow]
    · have hlow : ¬ key < 0x80 := by omega
      have hcode : ¬ key < 0x10000 := by omega
      rw [if_neg hlow, if_neg hlow, if_neg hcode, if_neg hcode]

theorem keyID_eq {key : ℕ} (h : key < 0x80 ∨ 0x10000 ≤ key) :
    keyID toLower key = keyID id key := by
  unfold keyID
  split
  · rfl
  · rcases h with hlow | hhigh
    · rw [if_pos hlow, if_pos hlow]
    · have hlow : ¬ key < 0x80 := by omega
      have hcode : ¬ key < 0x10000 := by omega
      rw [if_neg hlow, if_neg hlow, if_neg hcode, if_neg hcode]

/-- The character does not end a key in a list of arguments. -/
def isPlain (c : Char) : Bool :=
  KeyMap.isGraph c && c != ',' && c != '#' && c != ')' && c != '+'

/-- The text is that of a key, and not one of a modifier. -/
def Bare (text : Text) : Prop :=
  text ≠ [] ∧ (∀ c ∈ text, isPlain c = true) ∧ KeyMap.find KeyMap.modifierNames text = none

instance (text : Text) : Decidable (Bare text) := inferInstanceAs (Decidable (_ ∧ _))

/-- The server reads the text as the key. -/
def Readable (text : Text) (id : ℕ) : Prop :=
  Bare text ∧ KeyMap.parseKey text = some id ∧ id ≠ 0

instance (text : Text) (id : ℕ) : Decidable (Readable text id) :=
  inferInstanceAs (Decidable (_ ∧ _))

/-- The keys whose text is a delimiter, starts a comment or is no text at all. -/
def unreadableKeys : List ℕ := [0x23, 0x29, 0x2b, 0x7f]

/-- The characters that are not named. -/
theorem char_spec :
    (∀ key < 0x80, 0x21 ≤ key → key ∉ [0x2c, 0x3b] →
      keyName id key = [(Char.ofNat key).toLower] ∧
      keyID id key = some (Char.ofNat key).toLower.toNat) ∧
    ∀ key < 0x80, 0x21 ≤ key → key ∉ 0x2c :: 0x3b :: unreadableKeys →
      isPlain (Char.ofNat key).toLower = true ∧ (Char.ofNat key).toLower.toNat ≠ 0 :=
  ⟨by decide +kernel, by decide +kernel⟩

/-- Other characters are written in lower case. -/
theorem keyName_char : ∀ key < 0x80, 0x21 ≤ key → key ∉ [0x2c, 0x3b] →
    keyName id key = [(Char.ofNat key).toLower] ∧
    keyID id key = some (Char.ofNat key).toLower.toNat :=
  char_spec.1

theorem plain_char : ∀ key < 0x80, 0x21 ≤ key → key ∉ 0x2c :: 0x3b :: unreadableKeys →
    isPlain (Char.ofNat key).toLower = true ∧ (Char.ofNat key).toLower.toNat ≠ 0 :=
  char_spec.2

/-- The space, the comma and the semicolon have names. -/
theorem readable_named : ∀ key ∈ [0x20, 0x2c, 0x3b],
    ∃ n ∈ keyID id key, Readable (keyName id key) n := by
  decide +kernel

theorem isGraph_of_plain {c : Char} (h : isPlain c = true) : KeyMap.isGraph c = true := by
  simp only [isPlain, Bool.and_eq_true] at h
  exact h.1.1.1.1

theorem readable_char {key : ℕ} (hascii : key < 0x80) (hlow : 0x20 ≤ key)
    (hkey : key ∉ unreadableKeys) : ∃ n ∈ keyID id key, Readable (keyName id key) n := by
  by_cases hnamed : key ∈ [0x20, 0x2c, 0x3b]
  · exact readable_named key hnamed
  · rw [List.mem_cons, not_or] at hnamed
    have hother : key ∉ 0x2c :: 0x3b :: unreadableKeys := fun h => by
      rcases List.mem_append.1 (show key ∈ [0x2c, 0x3b] ++ unreadableKeys from h) with h | h
      · exact hnamed.2 h
      · exact hkey h
    obtain ⟨hname, hid⟩ := keyName_char key hascii (by omega) hnamed.2
    obtain ⟨hplain, hne⟩ := plain_char key hascii (by omega) hother
    rw [hname, hid]
    refine ⟨_, rfl, ⟨List.cons_ne_nil _ _, ?_, ?_⟩, ?_, hne⟩
    · exact List.forall_mem_singleton.2 hplain
    · exact KeyMap.find_char (List.subset_append_right _ _) _
    · exact KeyMap.parseKey_char (isGraph_of_plain hplain)

theorem readable_keyname : ∀ e ∈ keyname, 0x10000 ≤ e.1 →
    ∃ n ∈ keyID id e.1, Readable (keyName id e.1) n := by
  decide +kernel

theorem readable_function : ∀ i < 35,
    ∃ n ∈ keyID id (keyF1 + i), Readable (keyName id (keyF1 + i)) n := by
  decide +kernel

theorem isPlain_hexDigit : ∀ d < 16, isPlain (Text.hexDigit d) = true := by
  decide

/-- A character that is not ASCII is written as its code. -/
theorem readable_code {code : ℕ} (hpos : 0 < code) (hlt : code < 2 ^ 16) :
    Readable ('\\' :: 'u' :: Text.hex4 code) code := by
  have hplain : ∀ c ∈ Text.hex4 code, isPlain c = true := by
    intro c hc
    simp only [Text.hex4, List.mem_cons, List.not_mem_nil, or_false] at hc
    rcases hc with rfl | rfl | rfl | rfl <;>
      exact isPlain_hexDigit _ (Nat.mod_lt _ (by decide))
  refine ⟨⟨List.cons_ne_nil _ _, ?_, KeyMap.find_backslash (List.subset_append_right _ _) _⟩, ?_,
    hpos.ne'⟩
  · intro c hc
    rcases List.mem_cons.1 hc with rfl | hc
    · rfl
    rcases List.mem_cons.1 hc with rfl | hc
    · rfl
    · exact hplain c hc
  · exact KeyMap.parseKey_code rfl (by omega) (Text.strtol_hex4 hlt)

/-- What `QChar::toLower` relies on: a character that is not ASCII stays one of the first plane. -/
def LowersCode : Prop :=
  ∀ code, 0x80 ≤ code → code < 2 ^ 16 → 0 < toLower code ∧ toLower code < 2 ^ 16

variable {toLower}

/-- **A key is read as it is written**, if it has a text that the server can read. -/
theorem readable_keyName (hlower : LowersCode toLower) {key : ℕ} (hlow : 0x20 ≤ key)
    (htext : keyName toLower key ≠ []) (hkey : key ∉ unreadableKeys) :
    ∃ n ∈ keyID toLower key, Readable (keyName toLower key) n := by
  by_cases hascii : key < 0x80
  · rw [keyID_eq toLower (.inl hascii), keyName_eq toLower (.inl hascii)]
    exact readable_char hascii hlow hkey
  by_cases hplane : 0x10000 ≤ key
  · rw [keyName_eq toLower (.inr hplane)] at htext ⊢
    rw [keyID_eq toLower (.inr hplane)]
    cases hfind : keyname.find? (·.1 == key) with
    | some e =>
      have heq : e.1 = key := by simpa using List.find?_some hfind
      rw [← heq] at hplane ⊢
      exact readable_keyname e (List.mem_of_find?_eq_some hfind) hplane
    | none =>
      by_cases hfunction : keyF1 ≤ key ∧ key ≤ keyF1 + 34
      · obtain ⟨i, rfl⟩ := Nat.exists_eq_add_of_le hfunction.1
        exact readable_function i (by omega)
      · refine absurd ?_ htext
        rw [keyName, hfind]
        dsimp only
        rw [if_neg hascii, if_neg hfunction, if_neg (by omega)]
  · have hname : keyname.find? (·.1 == key) = none := by
      rw [List.find?_eq_none]
      intro e he heq
      have hrange : ∀ e ∈ keyname, e.1 < 0x80 ∨ 0x10000 ≤ e.1 := by decide
      have := hrange e he
      rw [beq_iff_eq.1 heq] at this
      omega
    have hspecial : specialKeys.find? (·.1 == key) = none := by
      rw [List.find?_eq_none]
      intro e he heq
      have hrange : ∀ e ∈ specialKeys, 0x10000 ≤ e.1 := by decide
      have := hrange e he
      rw [beq_iff_eq.1 heq] at this
      omega
    have hfunction : ¬ (keyF1 ≤ key ∧ key ≤ keyF1 + 34) := by
      rw [keyF1]
      omega
    have hcode : key < 0x10000 := by omega
    obtain ⟨hpos, hlt⟩ := hlower key (by omega) hcode
    rw [keyName, hname, keyID, hspecial]
    dsimp only
    rw [if_neg hascii, if_neg hfunction, if_pos hcode, if_neg hascii, if_neg hfunction,
      if_pos hcode]
    exact ⟨toLower key, rfl, readable_code hpos hlt⟩

variable (toLower)

namespace KeySequence

/-- Keys have no modifiers in them. -/
theorem keyToString_of_lt {key : ℕ} (hlow : 0x20 ≤ key) (hhigh : key < 2 ^ 25) :
    keyToString toLower key = keyName toLower key := by
  have hbit (i : ℕ) (hi : 25 ≤ i) : ¬ key.testBit i = true := by
    rw [Nat.testBit_lt_two_pow (hhigh.trans_le (Nat.pow_le_pow_right (by decide) hi))]
    exact Bool.false_ne_true
  rw [keyToString, if_neg (by omega), if_neg (by omega), if_neg (hbit 25 (by decide)),
    if_neg (hbit 26 (by decide)), if_neg (hbit 27 (by decide)), if_neg (hbit 28 (by decide)),
    if_neg (hbit 29 (by decide))]

theorem keyToString_button {key : ℕ} (h : key < 0x20) :
    keyToString toLower key = keyToString id key := by
  unfold keyToString
  rw [if_pos h, if_pos h]

/-! ### Modifiers as text -/

/-- The modifier of an entry that is written. -/
def firstMask (m : ℕ) : ℕ :=
  if m.testBit 25 then 0x0001 else if m.testBit 26 then 0x0002
  else if m.testBit 27 then 0x0004 else if m.testBit 28 then 0x0008 else 0

/-- The entry is one of the modifiers that the server knows. -/
def Single (m : ℕ) : Prop := modifierMask m ∈ [1, 2, 4, 8]

instance (m : ℕ) : Decidable (Single m) := inferInstanceAs (Decidable (_ ∈ _))

/-- What the server reads for a modifier. -/
def modifierText (mask : ℕ) : Text :=
  if mask = 1 then "Shift".toList else if mask = 2 then "Control".toList
  else if mask = 4 then "Alt".toList else if mask = 8 then "Meta".toList else []

theorem le_of_modifiers {m : ℕ} (hm : Modifiers m) : 2 ^ 25 ≤ m := by
  obtain ⟨n, hn⟩ := Nat.exists_testBit_of_ne_zero hm.1
  calc 2 ^ 25 ≤ 2 ^ n := Nat.pow_le_pow_right (by decide) (hm.2 n hn).1
    _ ≤ m := Nat.ge_two_pow_of_testBit hn

/-- An entry is written as its first modifier; others that the server does not know are written as
a character that it does not accept, or not at all. -/
theorem keyToString_modifiers {m : ℕ} (hm : Modifiers m) :
    firstMask m ∈ [1, 2, 4, 8] ∧ keyToString toLower m = modifierText (firstMask m) ∨
    firstMask m = 0 ∧ (keyToString toLower m = [Char.ofNat 0] ∨ keyToString toLower m = []) := by
  have hle := le_of_modifiers hm
  unfold keyToString
  rw [if_neg hm.1, if_neg (by omega)]
  by_cases h25 : m.testBit 25
  · rw [if_pos h25, firstMask, if_pos h25]
    exact .inl (by decide)
  rw [if_neg h25]
  by_cases h26 : m.testBit 26
  · rw [if_pos h26, firstMask, if_neg h25, if_pos h26]
    exact .inl (by decide)
  rw [if_neg h26]
  by_cases h27 : m.testBit 27
  · rw [if_pos h27, firstMask, if_neg h25, if_neg h26, if_pos h27]
    exact .inl (by decide)
  rw [if_neg h27]
  by_cases h28 : m.testBit 28
  · rw [if_pos h28, firstMask, if_neg h25, if_neg h26, if_neg h27, if_pos h28]
    exact .inl (by decide)
  rw [if_neg h28, firstMask, if_neg h25, if_neg h26, if_neg h27, if_neg h28]
  refine .inr ⟨rfl, ?_⟩
  -- Only the bits for the keypad and the group are left.
  have hbits :
      m = (if m.testBit 29 then 2 ^ 29 else 0) ||| (if m.testBit 30 then 2 ^ 30 else 0) := by
    refine Nat.eq_of_testBit_eq fun n => ?_
    rw [Nat.testBit_or]
    by_cases hn : n = 29 ∨ n = 30
    · rcases hn with rfl | rfl
      · cases m.testBit 29 <;> cases m.testBit 30 <;> decide
      · cases m.testBit 29 <;> cases m.testBit 30 <;> decide
    · have hother : m.testBit n = false := by
        by_contra hbit
        have hrange := hm.2 n (Bool.eq_true_of_not_eq_false hbit)
        obtain rfl | rfl | rfl | rfl : n = 25 ∨ n = 26 ∨ n = 27 ∨ n = 28 := by omega
        all_goals simp_all
      rw [hother]
      symm
      rw [Bool.or_eq_false_iff]
      constructor <;> split_ifs <;>
        simp only [Nat.testBit_two_pow, Nat.zero_testBit, decide_eq_false_iff_not] <;> omega
  generalize m.testBit 29 = b29, m.testBit 30 = b30 at hbits
  cases b29 <;> cases b30 <;> rw [hbits]
  · exact absurd hbits hm.1
  · exact .inr ((keyName_eq toLower (by decide)).trans (by decide +kernel))
  · exact .inl ((keyName_eq toLower (by decide)).trans (by decide +kernel))
  · exact .inr ((keyName_eq toLower (by decide)).trans (by decide +kernel))

end KeySequence

end Gui

end InputLeap
