import InputLeap.Config.RuleReader
import InputLeap.Keyboard.KeyMap

/-!
# The text of a keystroke

`KeyMap::formatKey` writes a key and its modifiers; the configuration reads them.

## Main definitions

* `KeyMap.formatKey` : the text.
* `KeyMap.addUp` : what the names of modifiers make of a mask.

## Main results

* `KeyMap.parseKeystroke_formatKey` : the keystrokes whose text is read back.
-/

namespace InputLeap

namespace KeyMap

/-- `kKeyAltGr`. -/
def keyAltGr : ℕ := 0xef7e

/-- The name of a number: of several names the last one. -/
def nameOf (names : List (String × ℕ)) (n : ℕ) : Option String :=
  (names.reverse.find? fun e => e.2 = n).map Prod.fst

/-- A number in hexadecimal digits, at least four (`%04x`). -/
def hexText (n : ℕ) : Text :=
  if n < 2 ^ 16 then Text.hex4 n else hexText (n / 16) ++ [Text.hexDigit (n % 16)]
termination_by n
decreasing_by omega

/-- The names of the modifiers in a mask. -/
def namedModifiers (mask : ℕ) : List String :=
  (List.range keyModifierNumBits).filterMap fun i =>
    if mask &&& 2 ^ i ≠ 0 then nameOf modifierNames (2 ^ i) else none

/-- The name of a key, its character, or `\u` and its code. -/
def keyText (key : ℕ) : Text :=
  match nameOf keyNames key with
  | some name => name.toList
  | none => if 33 ≤ key ∧ key < 127 then [Char.ofNat key] else '\\' :: 'u' :: hexText key

/-- The modifiers, each with a plus, and the key. Without a key the last plus is removed. -/
def formatKey (key mask : ℕ) : Text :=
  let x := (namedModifiers mask).flatMap fun name => name.toList ++ ['+']
  if key ≠ 0 then x ++ keyText key else x.dropLast

/-! ### Names -/

/-- The characters of a name as one number, without regard to case. -/
def nameCode (name : String) : ℕ :=
  (name.toList.map Char.toLower).foldl (fun n c => n * 256 + c.toNat) 0

/-- Names that differ are found. -/
theorem find_of_nodup {names : List (String × ℕ)}
    (h : (names.map fun e => nameCode e.1).Nodup) :
    ∀ e ∈ names, find names e.1.toList = some e.2 := by
  induction names with
  | nil => exact fun e he => absurd he List.not_mem_nil
  | cons e' names ih =>
    intro e he
    rw [List.map_cons, List.nodup_cons] at h
    rcases List.mem_cons.1 he with rfl | he
    · simp [find]
    · have hne : (e'.1.toList.map Char.toLower == e.1.toList.map Char.toLower) = false := by
        refine beq_false_of_ne fun heq => h.1 (List.mem_map.2 ⟨e, he, ?_⟩)
        rw [nameCode, nameCode, heq]
      rw [find, List.find?_cons, hne]
      exact ih h.2 e he

theorem find_keyNames : ∀ e ∈ keyNames, find keyNames e.1.toList = some e.2 :=
  find_of_nodup (by decide +kernel)

/-- The names of keys and of modifiers are plain, and differ but for AltGr. -/
theorem plain_names :
    (∀ e ∈ keyNames, e.1.toList ≠ [] ∧ (∀ c ∈ e.1.toList, endsModifier c = false) ∧
      (e.2 ≠ keyAltGr → find modifierNames e.1.toList = none)) ∧
    ∀ e ∈ modifierNames, e.1.toList ≠ [] ∧ (∀ c ∈ e.1.toList, endsModifier c = false) ∧
      e.2 < 64 := by
  decide +kernel

theorem plain_keyNames : ∀ e ∈ keyNames, e.1.toList ≠ [] ∧
    (∀ c ∈ e.1.toList, endsModifier c = false) ∧
    (e.2 ≠ keyAltGr → find modifierNames e.1.toList = none) :=
  plain_names.1

theorem plain_modifierNames : ∀ e ∈ modifierNames, e.1.toList ≠ [] ∧
    (∀ c ∈ e.1.toList, endsModifier c = false) ∧ e.2 < 64 :=
  plain_names.2

variable {names : List (String × ℕ)} {name : String} {n key mask mod : ℕ} {text : Text}

theorem mem_of_nameOf (h : nameOf names n = some name) : (name, n) ∈ names := by
  obtain ⟨e, he, rfl⟩ := Option.map_eq_some_iff.1 h
  have hn : e.2 = n := by simpa using List.find?_some he
  exact hn ▸ List.mem_reverse.1 (List.mem_of_find?_eq_some he)

theorem mem_of_find (h : find names text = some n) : ∃ e ∈ names, e.2 = n := by
  obtain ⟨e, he, rfl⟩ := Option.map_eq_some_iff.1 h
  exact ⟨e, List.mem_of_find?_eq_some he, rfl⟩

/-! ### Modifiers -/

/-- What the names of modifiers add to a mask, if each is new. -/
def addUp (mask : ℕ) : List String → Option ℕ
  | [] => some mask
  | name :: names =>
    match find modifierNames name.toList with
    | none => none
    | some mod => if mask &&& mod ≠ 0 then none else addUp (mask ||| mod) names

theorem addUp_namedModifiers : ∀ mask < 64, addUp 0 (namedModifiers mask) = some mask := by
  decide +kernel

/-- The text is one that does not end before its end where a modifier is read. -/
def Unended (text : Text) : Prop := text ≠ [] ∧ ∀ c ∈ text, endsModifier c = false

theorem not_isBlank_of_unended {c : Char} (h : endsModifier c = false) :
    Text.isBlank c = false := by
  simp only [endsModifier, Bool.or_eq_false_iff] at h
  exact h.1.1

theorem Unended.head (h : Unended text) {t : Text} :
    ∀ c ∈ (text ++ t).head?, Text.isBlank c = false := by
  intro c hc
  rw [List.head?_append_of_ne_nil text h.1] at hc
  exact not_isBlank_of_unended (h.2 c (List.mem_of_mem_head? hc))

theorem Unended.trim (h : Unended text) : Text.trim text = text :=
  Text.trim_of_noBlank fun c hc => not_isBlank_of_unended (h.2 c hc)

theorem unended_namedModifiers (h : name ∈ namedModifiers mask) : Unended name.toList := by
  obtain ⟨i, -, hname⟩ := List.mem_filterMap.1 h
  split_ifs at hname
  obtain ⟨hne, hends, -⟩ := plain_modifierNames _ (mem_of_nameOf hname)
  exact ⟨hne, hends⟩

/-- Names of modifiers, each with a plus. -/
def plusText (names : List String) : Text := names.flatMap fun name => name.toList ++ ['+']

theorem plusText_head {names : List String} {t : Text}
    (hnames : ∀ name ∈ names, Unended name.toList) (ht : ∀ c ∈ t.head?, Text.isBlank c = false) :
    ∀ c ∈ (plusText names ++ t).head?, Text.isBlank c = false := by
  cases names with
  | nil => exact ht
  | cons name names =>
    have hcons : plusText (name :: names) ++ t =
        name.toList ++ ('+' :: (plusText names ++ t)) := by
      simp [plusText]
    rw [hcons]
    exact (hnames name List.mem_cons_self).head

/-- The modifiers before a key are read. -/
theorem modifiersLoop_plusText {names : List String} {mask' : ℕ} {t : Text}
    (hnames : ∀ name ∈ names, Unended name.toList) (h : addUp mask names = some mask')
    (ht : ∀ c ∈ t.head?, Text.isBlank c = false) :
    modifiersLoop mask (plusText names ++ t) = modifiersLoop mask' t := by
  induction names generalizing mask with
  | nil =>
    obtain rfl := Option.some.inj h
    rfl
  | cons name names ih =>
    obtain ⟨⟨hne, hends⟩, hnames⟩ := List.forall_mem_cons.1 hnames
    rw [addUp] at h
    cases hfind : find modifierNames name.toList with
    | none =>
      rw [hfind] at h
      cases h
    | some mod =>
      rw [hfind] at h
      dsimp only at h
      split_ifs at h with hmask
      have hcons : plusText (name :: names) ++ t =
          name.toList ++ '+' :: (plusText names ++ t) := by
        simp [plusText]
      rw [hcons, modifiersLoop_append hne hends hfind (not_not.1 hmask),
        Text.dropWhile_of_head (plusText_head hnames ht)]
      exact ih hnames h

theorem addUp_append (names names' : List String) :
    addUp mask (names ++ names') = (addUp mask names).bind fun mask => addUp mask names' := by
  induction names generalizing mask with
  | nil => rfl
  | cons name names ih =>
    rw [List.cons_append, addUp, addUp]
    cases find modifierNames name.toList with
    | none => rfl
    | some mod =>
      dsimp only
      split_ifs
      · rfl
      · exact ih

/-- A modifier that nothing follows. -/
theorem modifiersLoop_last (h : Unended text) (hfind : find modifierNames text = some mod) :
    modifiersLoop mask text = if mask &&& mod ≠ 0 then none else some (mask ||| mod, []) := by
  obtain ⟨htake, hdrop⟩ := takeWhile_name h.2 (t := []) nofun
  rw [List.append_nil] at htake hdrop
  rw [modifiersLoop, if_neg h.1]
  dsimp only
  rw [htake, if_neg h.1, hfind]
  dsimp only
  split_ifs
  · rfl
  · split
    · rfl
    · rename_i heq
      rw [hdrop] at heq
      cases heq

/-- Modifiers without a key are read. -/
theorem modifiersLoop_dropLast {names : List String} {mask' : ℕ} (hne : names ≠ [])
    (hnames : ∀ name ∈ names, Unended name.toList) (h : addUp mask names = some mask') :
    modifiersLoop mask (plusText names).dropLast = some (mask', []) := by
  -- the last name stands without its plus
  obtain ⟨names, name, rfl⟩ := List.eq_nil_or_concat names |>.resolve_left hne
  rw [List.concat_eq_append] at *
  obtain ⟨hnames, hname⟩ := List.forall_mem_append.1 hnames
  have hname := hname name (List.mem_singleton_self name)
  rw [addUp_append] at h
  obtain ⟨mask₁, hmask₁, h⟩ := Option.bind_eq_some_iff.1 h
  rw [addUp] at h
  cases hfind : find modifierNames name.toList with
  | none =>
    rw [hfind] at h
    cases h
  | some mod =>
    rw [hfind] at h
    dsimp only at h
    split_ifs at h with hmask
    obtain rfl := Option.some.inj h
    have htext : (plusText (names ++ [name])).dropLast = plusText names ++ name.toList := by
      have hplus : plusText (names ++ [name]) = (plusText names ++ name.toList) ++ ['+'] := by
        simp [plusText]
      rw [hplus, List.dropLast_concat]
    rw [htext, modifiersLoop_plusText hnames hmask₁ fun c hc =>
      hname.head c (by rwa [List.append_nil] : c ∈ (name.toList ++ []).head?)]
    rw [modifiersLoop_last hname hfind, if_neg hmask]

/-- The modifiers that are read have names. -/
theorem modifiersLoop_lt {rest : Text} (hmask : mask < 64)
    (h : modifiersLoop mask text = some (mod, rest)) : mod < 64 := by
  fun_induction modifiersLoop mask text with
  | case1 mask =>
    cases h
    exact hmask
  | case2 => cases h
  | case3 => cases h
  | case4 mask s hs c hc add hfind hnew _ =>
    cases h
    obtain ⟨e, he, rfl⟩ := mem_of_find hfind
    exact Nat.or_lt_two_pow (n := 6) hmask (plain_modifierNames e he).2.2
  | case5 mask s hs c hc add hfind hnew t _ ih =>
    obtain ⟨e, he, rfl⟩ := mem_of_find hfind
    exact ih (Nat.or_lt_two_pow (n := 6) hmask (plain_modifierNames e he).2.2) h
  | case6 => cases h
  | case7 =>
    cases h
    exact hmask

/-! ### Keys -/

theorem mem_hexText {c : Char} (h : c ∈ hexText n) : endsModifier c = false := by
  have hdigit : ∀ d < 16, endsModifier (Text.hexDigit d) = false := by decide
  fun_induction hexText n with
  | case1 n hn =>
    simp only [Text.hex4, List.mem_cons, List.not_mem_nil, or_false] at h
    rcases h with rfl | rfl | rfl | rfl
    all_goals exact hdigit _ (Nat.mod_lt _ (by decide))
  | case2 n hn ih =>
    rcases List.mem_append.1 h with h | h
    · exact ih h
    · rw [List.mem_singleton.1 h]
      exact hdigit _ (Nat.mod_lt _ (by decide))

theorem unended_code (n : ℕ) : Unended ('\\' :: 'u' :: hexText n) := by
  refine ⟨List.cons_ne_nil _ _, ?_⟩
  intro c hc
  rcases List.mem_cons.1 hc with rfl | hc
  · rfl
  rcases List.mem_cons.1 hc with rfl | hc
  · rfl
  · exact mem_hexText hc

theorem le_length_hexText (n : ℕ) : 4 ≤ (hexText n).length := by
  fun_induction hexText n with
  | case1 => exact le_refl 4
  | case2 n hn ih =>
    rw [List.length_append]
    exact ih.trans (Nat.le_add_right _ _)

/-- Only numbers below 2 ^ 16 have four digits. -/
theorem length_hexText (h : 2 ^ 16 ≤ n) : (hexText n).length ≠ 4 := by
  have hle := le_length_hexText (n / 16)
  rw [hexText, if_neg (not_lt.2 h), List.length_append, List.length_singleton]
  omega

/-- The characters without a name. -/
theorem plain_char : ∀ key < 127, 33 ≤ key → nameOf keyNames key = none →
    endsModifier (Char.ofNat key) = false ∧ isGraph (Char.ofNat key) = true ∧
      (Char.ofNat key).toNat = key := by
  decide +kernel

theorem unended_keyText (key : ℕ) : Unended (keyText key) := by
  rw [keyText]
  cases hname : nameOf keyNames key with
  | some name =>
    obtain ⟨hne, hends, -⟩ := plain_keyNames _ (mem_of_nameOf hname)
    exact ⟨hne, hends⟩
  | none =>
    dsimp only
    split_ifs with hchar
    · refine ⟨List.cons_ne_nil _ _, ?_⟩
      intro c hc
      rw [List.mem_singleton.1 hc]
      exact (plain_char key hchar.2 hchar.1 hname).1
    · exact unended_code key

theorem find_keyText (hkey : key ≠ keyAltGr) : find modifierNames (keyText key) = none := by
  rw [keyText]
  cases hname : nameOf keyNames key with
  | some name => exact (plain_keyNames _ (mem_of_nameOf hname)).2.2 hkey
  | none =>
    dsimp only
    split_ifs
    · exact find_char (List.subset_append_right _ _) _
    · exact find_backslash (List.subset_append_right _ _) _

theorem find_keyText_altGr : find modifierNames (keyText keyAltGr) = some 0x20 := by
  decide +kernel

/-- A key other than AltGr is no modifier. -/
theorem modifiersLoop_keyText (hkey : key ≠ keyAltGr) :
    modifiersLoop mask (keyText key) = some (mask, keyText key) := by
  have hends := unended_keyText key
  rw [modifiersLoop_key hends.1 hends.2 (find_keyText hkey), hends.trim]

/-- The keys that can be read: those with a name, and codes of four digits. -/
theorem parseKey_keyText :
    parseKey (keyText key) = some key ↔ key < 2 ^ 16 ∨ (nameOf keyNames key).isSome := by
  unfold keyText
  cases hname : nameOf keyNames key with
  | some name =>
    refine iff_of_true ?_ (.inr rfl)
    dsimp only
    unfold parseKey
    rw [find_keyNames _ (mem_of_nameOf hname)]
  | none =>
    dsimp only
    split_ifs with hchar
    · refine iff_of_true ?_ (.inl (by omega))
      obtain ⟨-, hgraph, hcode⟩ := plain_char key hchar.2 hchar.1 hname
      rw [parseKey_char hgraph, hcode]
    · by_cases hlt : key < 2 ^ 16
      · refine iff_of_true ?_ (.inl hlt)
        rw [hexText, if_pos hlt]
        exact parseKey_code rfl (by omega) (Text.strtol_hex4 hlt)
      · refine iff_of_false ?_ fun hor => hor.elim hlt nofun
        unfold parseKey
        simp only [find_backslash (List.subset_append_left _ _), length_hexText (not_lt.1 hlt),
          if_false]
        nofun

/-! ### Keystrokes -/

open ConfigReadContext

variable {screens screens' : Std.TreeSet String} {info : InputFilter.KeyInfo}

theorem parseKeystroke_eq_some : parseKeystroke text screens = some info ↔
    ∃ s, parseModifiers text = some (info.mask, s) ∧ parseKey s = some info.key ∧
      ¬(info.key = 0 ∧ info.mask = 0) ∧ info = ⟨info.key, info.mask, 0, 0, join screens⟩ := by
  unfold parseKeystroke
  constructor
  · intro h
    split at h
    · cases h
    · rename_i mask s hmods
      split at h
      · cases h
      · rename_i key hkey
        split_ifs at h with hzero
        cases h
        exact ⟨s, hmods, hkey, hzero, rfl⟩
  · rintro ⟨s, hmods, hkey, hzero, hinfo⟩
    rw [hmods]
    dsimp only
    rw [hkey]
    dsimp only
    rw [if_neg hzero, ← hinfo]

theorem parseKey_nil : parseKey [] = some 0 := rfl

/-- The text of modifiers without a key. -/
theorem parseModifiers_formatKey_zero (hmask : mask < 64) (hne : mask ≠ 0) :
    parseModifiers (formatKey 0 mask) = some (mask, []) := by
  have hadd := addUp_namedModifiers mask hmask
  -- a mask that is not empty has a named modifier
  have hnames : namedModifiers mask ≠ [] := by
    intro hnil
    rw [hnil] at hadd
    exact hne (Option.some.inj hadd).symm
  have hloop := modifiersLoop_dropLast hnames (fun _ => unended_namedModifiers) hadd
  have hhead : ∀ c ∈ (plusText (namedModifiers mask)).dropLast.head?, Text.isBlank c = false := by
    obtain ⟨name, names, hcons⟩ := List.exists_cons_of_ne_nil hnames
    have hname : Unended name.toList := unended_namedModifiers (hcons ▸ List.mem_cons_self)
    have htext : plusText (name :: names) = name.toList ++ ('+' :: plusText names) := by
      simp [plusText]
    rw [hcons, htext, List.dropLast_append_of_ne_nil (List.cons_ne_nil _ _)]
    exact hname.head
  have htext : formatKey 0 mask = (plusText (namedModifiers mask)).dropLast := rfl
  rw [parseModifiers, htext, Text.dropWhile_of_head hhead, hloop]

/-- The text of modifiers and a key. -/
theorem parseModifiers_formatKey (hmask : mask < 64) (hkey : key ≠ 0) :
    parseModifiers (formatKey key mask) = modifiersLoop mask (keyText key) := by
  have hends := unended_keyText key
  have hhead : ∀ c ∈ (keyText key).head?, Text.isBlank c = false := by
    intro c hc
    exact not_isBlank_of_unended (hends.2 c (List.mem_of_mem_head? hc))
  have hnames : ∀ name ∈ namedModifiers mask, Unended name.toList := by
    intro name
    exact unended_namedModifiers
  have htext : formatKey key mask = plusText (namedModifiers mask) ++ keyText key := if_pos hkey
  rw [parseModifiers, htext, Text.dropWhile_of_head (plusText_head hnames hhead)]
  exact modifiersLoop_plusText hnames (addUp_namedModifiers mask hmask) hhead

/-- **The text of a keystroke** that the configuration accepts is read back exactly if the key is
not AltGr and has a name or a code of four digits. -/
theorem parseKeystroke_formatKey (h : parseKeystroke text screens = some info) :
    parseKeystroke (formatKey info.key info.mask) screens = some info ↔
      info.key ≠ keyAltGr ∧ (info.key < 2 ^ 16 ∨ (nameOf keyNames info.key).isSome) := by
  obtain ⟨s, hmods, -, hzero, hinfo⟩ := parseKeystroke_eq_some.1 h
  have hmask : info.mask < 64 := modifiersLoop_lt (by decide) hmods
  rw [parseKeystroke_eq_some]
  by_cases hkey : info.key = 0
  · refine iff_of_true ⟨[], ?_, ?_, hzero, hinfo⟩ ?_
    · rw [hkey]
      exact parseModifiers_formatKey_zero hmask fun hnone => hzero ⟨hkey, hnone⟩
    · rw [hkey]
      exact parseKey_nil
    · rw [hkey]
      decide
  rw [parseModifiers_formatKey hmask hkey]
  by_cases hgr : info.key = keyAltGr
  · refine iff_of_false ?_ fun hand => hand.1 hgr
    rintro ⟨s, hloop, hread, -⟩
    -- the name is read as the modifier, which leaves no key
    rw [hgr, modifiersLoop_last (unended_keyText keyAltGr) find_keyText_altGr] at hloop
    split_ifs at hloop
    obtain ⟨-, rfl⟩ := Prod.mk.inj (Option.some.inj hloop)
    rw [parseKey_nil] at hread
    exact hkey (Option.some.inj hread).symm
  · rw [modifiersLoop_keyText hgr]
    constructor
    · rintro ⟨s, hs, hread, -⟩
      cases hs
      exact ⟨hgr, parseKey_keyText.1 hread⟩
    · rintro ⟨-, hread⟩
      exact ⟨_, rfl, parseKey_keyText.2 hread, hzero, hinfo⟩

/-- Every code of four digits but 0 is accepted. -/
theorem parseKeystroke_code (hzero : n ≠ 0) (hn : n < 2 ^ 16) :
    parseKeystroke ('\\' :: 'u' :: hexText n) screens = some ⟨n, 0, 0, 0, join screens⟩ := by
  have hends := unended_code n
  refine parseKeystroke_eq_some.2
    ⟨'\\' :: 'u' :: hexText n, ?_, ?_, fun hand => hzero hand.1, rfl⟩
  · have hhead := hends.head (t := [])
    rw [List.append_nil] at hhead
    rw [parseModifiers, Text.dropWhile_of_head hhead,
      modifiersLoop_key hends.1 hends.2 (find_backslash (List.subset_append_right _ _) _),
      hends.trim]
  · rw [hexText, if_pos hn]
    exact parseKey_code rfl (hn.trans (by decide)) (Text.strtol_hex4 hn)

theorem parseKeystroke_formatKey_shiftControlF5 :
    parseKeystroke "shift + Control+f5".toList ∅ = some ⟨0xefc2, 0x3, 0, 0, join ∅⟩ ∧
      parseKeystroke "Shift+Control+F5".toList ∅ = some ⟨0xefc2, 0x3, 0, 0, join ∅⟩ := by
  have hread : parseKeystroke "shift + Control+f5".toList ∅ =
      some ⟨0xefc2, 0x3, 0, 0, join ∅⟩ := by
    refine parseKeystroke_eq_some.2 ⟨"f5".toList, ?_, ?_, by decide, rfl⟩
    · decide +kernel
    · decide +kernel
  have htext : formatKey 0xefc2 0x3 = "Shift+Control+F5".toList := by decide +kernel
  have hback := (parseKeystroke_formatKey hread).2 ⟨by decide, .inl (by decide)⟩
  exact ⟨hread, htext ▸ hback⟩

theorem not_parseKeystroke_formatKey :
    ¬∀ (text : Text) (screens : Std.TreeSet String) (info : InputFilter.KeyInfo),
      parseKeystroke text screens = some info →
        parseKeystroke (formatKey info.key info.mask) screens = some info := by
  intro h
  have hgr : parseKeystroke ('\\' :: 'u' :: hexText keyAltGr) ∅ =
      some ⟨keyAltGr, 0, 0, 0, join ∅⟩ := parseKeystroke_code (by decide) (by decide)
  exact ((parseKeystroke_formatKey hgr).1 (h _ _ _ hgr)).1 rfl

end KeyMap

end InputLeap
