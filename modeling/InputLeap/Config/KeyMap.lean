import InputLeap.Text.Scan

/-!
# The names of keys

`KeyMap` reads the names of keys and modifiers in the configuration.

## Main definitions

* `KeyMap.keyNames`, `KeyMap.modifierNames` : the names.
* `KeyMap.parseModifiers` : the modifiers at the start of a text.
* `KeyMap.parseKey` : a key.
-/

namespace InputLeap

namespace KeyMap

/-- `kKeyNameMap`. -/
def keyNames : List (String × ℕ) :=
  [("AltGr", 0xef7e), ("Alt_L", 0xefe9), ("Alt_R", 0xefea), ("AppMail", 0xe0b4),
    ("AppMedia", 0xe0b5), ("AppUser1", 0xe0b6), ("AppUser2", 0xe0b7), ("AudioDown", 0xe0ae),
    ("AudioMute", 0xe0ad), ("AudioNext", 0xe0b0), ("AudioPlay", 0xe0b3), ("AudioPrev", 0xe0b1),
    ("AudioStop", 0xe0b2), ("AudioUp", 0xe0af), ("BackSpace", 0xef08), ("Begin", 0xef58),
    ("Break", 0xef6b), ("Cancel", 0xef69), ("CapsLock", 0xefe5), ("Clear", 0xef0b),
    ("Control_L", 0xefe3), ("Control_R", 0xefe4), ("Delete", 0xefff), ("Down", 0xef54),
    ("EisuToggle", 0xef30), ("Eject", 0xe001), ("End", 0xef57), ("Escape", 0xef1b),
    ("Execute", 0xef62), ("F1", 0xefbe), ("F2", 0xefbf), ("F3", 0xefc0), ("F4", 0xefc1),
    ("F5", 0xefc2), ("F6", 0xefc3), ("F7", 0xefc4), ("F8", 0xefc5), ("F9", 0xefc6),
    ("F10", 0xefc7), ("F11", 0xefc8), ("F12", 0xefc9), ("F13", 0xefca), ("F14", 0xefcb),
    ("F15", 0xefcc), ("F16", 0xefcd), ("F17", 0xefce), ("F18", 0xefcf), ("F19", 0xefd0),
    ("F20", 0xefd1), ("F21", 0xefd2), ("F22", 0xefd3), ("F23", 0xefd4), ("F24", 0xefd5),
    ("F25", 0xefd6), ("F26", 0xefd7), ("F27", 0xefd8), ("F28", 0xefd9), ("F29", 0xefda),
    ("F30", 0xefdb), ("F31", 0xefdc), ("F32", 0xefdd), ("F33", 0xefde), ("F34", 0xefdf),
    ("F35", 0xefe0), ("Find", 0xef68), ("Help", 0xef6a), ("Henkan", 0xef23), ("Home", 0xef50),
    ("Hyper_L", 0xefed), ("Hyper_R", 0xefee), ("Insert", 0xef63), ("Kana", 0xef26),
    ("KP_0", 0xefb0), ("KP_1", 0xefb1), ("KP_2", 0xefb2), ("KP_3", 0xefb3), ("KP_4", 0xefb4),
    ("KP_5", 0xefb5), ("KP_6", 0xefb6), ("KP_7", 0xefb7), ("KP_8", 0xefb8), ("KP_9", 0xefb9),
    ("KP_Add", 0xefab), ("KP_Begin", 0xef9d), ("KP_Decimal", 0xefae), ("KP_Delete", 0xef9f),
    ("KP_Divide", 0xefaf), ("KP_Down", 0xef99), ("KP_End", 0xef9c), ("KP_Enter", 0xef8d),
    ("KP_Equal", 0xefbd), ("KP_F1", 0xef91), ("KP_F2", 0xef92), ("KP_F3", 0xef93),
    ("KP_F4", 0xef94), ("KP_Home", 0xef95), ("KP_Insert", 0xef9e), ("KP_Left", 0xef96),
    ("KP_Multiply", 0xefaa), ("KP_PageDown", 0xef9b), ("KP_PageUp", 0xef9a), ("KP_Right", 0xef98),
    ("KP_Separator", 0xefac), ("KP_Space", 0xef80), ("KP_Subtract", 0xefad), ("KP_Tab", 0xef89),
    ("KP_Up", 0xef97), ("Left", 0xef51), ("LeftTab", 0xee20), ("Linefeed", 0xef0a),
    ("Menu", 0xef67), ("Meta_L", 0xefe7), ("Meta_R", 0xefe8), ("Muhenkan", 0xef22),
    ("NumLock", 0xef7f), ("PageDown", 0xef56), ("PageUp", 0xef55), ("Pause", 0xef13),
    ("Print", 0xef61), ("Redo", 0xef66), ("Return", 0xef0d), ("Right", 0xef53),
    ("ScrollLock", 0xef14), ("Select", 0xef60), ("ShiftLock", 0xefe6), ("Shift_L", 0xefe1),
    ("Shift_R", 0xefe2), ("Sleep", 0xe05f), ("Super_L", 0xefeb), ("Super_R", 0xefec),
    ("SysReq", 0xef15), ("Tab", 0xef09), ("Undo", 0xef65), ("Up", 0xef52), ("WWWBack", 0xe0a6),
    ("WWWFavorites", 0xe0ab), ("WWWForward", 0xe0a7), ("WWWHome", 0xe0ac), ("WWWRefresh", 0xe0a8),
    ("WWWSearch", 0xe0aa), ("WWWStop", 0xe0a9), ("Zenkaku", 0xef2a), ("Space", 0x0020),
    ("Exclaim", 0x0021), ("DoubleQuote", 0x0022), ("Number", 0x0023), ("Dollar", 0x0024),
    ("Percent", 0x0025), ("Ampersand", 0x0026), ("Apostrophe", 0x0027), ("ParenthesisL", 0x0028),
    ("ParenthesisR", 0x0029), ("Asterisk", 0x002a), ("Plus", 0x002b), ("Comma", 0x002c),
    ("Minus", 0x002d), ("Period", 0x002e), ("Slash", 0x002f), ("Colon", 0x003a),
    ("Semicolon", 0x003b), ("Less", 0x003c), ("Equal", 0x003d), ("Greater", 0x003e),
    ("Question", 0x003f), ("At", 0x0040), ("BracketL", 0x005b), ("Backslash", 0x005c),
    ("BracketR", 0x005d), ("Circumflex", 0x005e), ("Underscore", 0x005f), ("Grave", 0x0060),
    ("BraceL", 0x007b), ("Bar", 0x007c), ("BraceR", 0x007d), ("Tilde", 0x007e),
    ("Copy", 0x1008ef57), ("Cut", 0x1008ef58), ("Open", 0x1008ef6b), ("Paste", 0x1008ef6d),
    ("Props", 0x1005ef70), ("Front", 0x1005ef71)]

/-- `kModifierNameMap`. -/
def modifierNames : List (String × ℕ) :=
  [("Alt", 0x0004), ("AltGr", 0x0020), ("Control", 0x0002), ("Meta", 0x0008), ("Shift", 0x0001),
    ("Super", 0x0010)]

/-- The number of a name, which is compared without regard to case. -/
def find (names : List (String × ℕ)) (x : Text) : Option ℕ :=
  (names.find? fun e => e.1.toList.map Char.toLower == x.map Char.toLower).map Prod.snd

/-- `isgraph`. -/
def isGraph (c : Char) : Bool := '!' ≤ c && c ≤ '~'

/-- The characters that end a modifier. -/
def endsModifier (c : Char) : Bool := Text.isBlank c || c == '+' || c == ')'

theorem length_dropWhile_le (p : Char → Bool) (s : Text) : (s.dropWhile p).length ≤ s.length :=
  (List.dropWhile_suffix p).length_le

/-- The modifiers from here on, after those in `mask`, and the text behind them. -/
def modifiersLoop (mask : ℕ) (s : Text) : Option (ℕ × Text) :=
  if s = [] then some (mask, [])
  else
    let c := s.takeWhile (!endsModifier ·)
    if c = [] then none
    else
      match find modifierNames c with
      | some mod =>
        if mask &&& mod ≠ 0 then none
        else
          match _ht : (s.dropWhile (!endsModifier ·)).dropWhile Text.isBlank with
          | [] => some (mask ||| mod, [])
          | d :: t =>
            if d = '+' then modifiersLoop (mask ||| mod) (t.dropWhile Text.isBlank) else none
      | none => some (mask, Text.trim s)
termination_by s.length
decreasing_by
  have h₁ := length_dropWhile_le Text.isBlank (s.dropWhile (!endsModifier ·))
  have h₂ := length_dropWhile_le (!endsModifier ·) s
  have h₃ := length_dropWhile_le Text.isBlank t
  rw [_ht, List.length_cons] at h₁
  omega

/-- The modifiers at the start of the text, and the text behind them. -/
def parseModifiers (x : Text) : Option (ℕ × Text) := modifiersLoop 0 (x.dropWhile Text.isBlank)

/-- The key with the name, the character itself or `\\u` and its code. -/
def parseKey (x : Text) : Option ℕ :=
  match find keyNames x with
  | some key => some key
  | none =>
    match x with
    | [] => some 0
    | [c] => if isGraph c then some c.toNat else none
    | '\\' :: 'u' :: code =>
      if code.length = 4 then
        let (v, rest) := Text.strtol 16 code
        -- a null character ends the text, too
        if rest.headD '\x00' = '\x00' then some (v % 2 ^ 32).toNat else none
      else none
    | _ => none

/-! ### Characters -/

/-- No name is a single character, and none starts with a backslash. -/
theorem names_spec : ∀ e ∈ keyNames ++ modifierNames,
    e.1.toList.tail ≠ [] ∧ (e.1.toList.map Char.toLower).head? ≠ some '\\' := by
  decide +kernel

theorem find_eq_none {names : List (String × ℕ)} {x : Text}
    (h : ∀ e ∈ names, e.1.toList.map Char.toLower ≠ x.map Char.toLower) : find names x = none := by
  rw [find, Option.map_eq_none_iff, List.find?_eq_none]
  exact fun e he heq => h e he (beq_iff_eq.1 heq)

/-- A character is no name. -/
theorem find_char {names : List (String × ℕ)} (hnames : names ⊆ keyNames ++ modifierNames)
    (c : Char) : find names [c] = none := by
  refine find_eq_none fun e he heq => (names_spec e (hnames he)).1 ?_
  have hlength := congrArg List.length heq
  rw [List.length_map, List.length_map] at hlength
  rw [← List.length_eq_zero_iff, List.length_tail, hlength]
  rfl

/-- A character is read as its code. -/
theorem parseKey_char {c : Char} (hc : isGraph c = true) : parseKey [c] = some c.toNat := by
  unfold parseKey
  simp only [find_char (List.subset_append_left _ _), hc, if_true]

/-- What starts with a backslash is no name. -/
theorem find_backslash {names : List (String × ℕ)} (hnames : names ⊆ keyNames ++ modifierNames)
    (s : Text) : find names ('\\' :: s) = none := by
  refine find_eq_none fun e he heq => (names_spec e (hnames he)).2 ?_
  rw [heq]
  rfl

/-- A character code is read as the number. -/
theorem parseKey_code {code : Text} {n : ℕ} (hlength : code.length = 4) (hn : n < 2 ^ 32)
    (hcode : Text.strtol 16 code = ((n : ℤ), [])) : parseKey ('\\' :: 'u' :: code) = some n := by
  unfold parseKey
  simp only [find_backslash (List.subset_append_left _ _), hlength, if_true, hcode, List.headD_nil]
  congr 1
  omega

/-! ### Modifiers -/

section

variable {mask mod : ℕ} {name : Text}

/-- A name goes up to a character that ends it. -/
theorem takeWhile_name (hname : ∀ c ∈ name, endsModifier c = false) {t : Text}
    (ht : ∀ c ∈ t.head?, endsModifier c = true) :
    (name ++ t).takeWhile (!endsModifier ·) = name ∧ (name ++ t).dropWhile (!endsModifier ·) = t :=
  have hrun : ∀ c ∈ name, (!endsModifier c) = true := fun c hc => by rw [hname c hc]; rfl
  have hend : ∀ c ∈ t.head?, (!endsModifier c) = false := fun c hc => by rw [ht c hc]; rfl
  ⟨Text.takeWhile_run hrun hend, Text.dropWhile_run hrun hend⟩

/-- A modifier that is followed by another one or a key. -/
theorem modifiersLoop_append (hne : name ≠ []) (hname : ∀ c ∈ name, endsModifier c = false)
    (hfind : find modifierNames name = some mod) (hmask : mask &&& mod = 0) (t : Text) :
    modifiersLoop mask (name ++ '+' :: t) =
      modifiersLoop (mask ||| mod) (t.dropWhile Text.isBlank) := by
  obtain ⟨htake, hdrop⟩ := takeWhile_name hname (t := '+' :: t) (fun c hc => by cases hc; rfl)
  rw [modifiersLoop, if_neg (List.append_ne_nil_of_left_ne_nil hne _)]
  dsimp only
  rw [htake, if_neg hne, hfind]
  dsimp only
  rw [if_neg (not_not.2 hmask)]
  split
  · rename_i heq
    rw [hdrop] at heq
    cases heq
  · rename_i d u heq
    rw [hdrop] at heq
    cases heq
    exact if_pos rfl

/-- A key. -/
theorem modifiersLoop_key (hne : name ≠ []) (hname : ∀ c ∈ name, endsModifier c = false)
    (hfind : find modifierNames name = none) :
    modifiersLoop mask name = some (mask, Text.trim name) := by
  obtain ⟨htake, -⟩ := takeWhile_name hname (t := []) nofun
  rw [List.append_nil] at htake
  rw [modifiersLoop, if_neg hne]
  dsimp only
  rw [htake, if_neg hne, hfind]

/-- A modifier may not be missing. -/
theorem modifiersLoop_missing {c : Char} (hc : endsModifier c = true) (t : Text) :
    modifiersLoop mask (c :: t) = none := by
  have htake : (c :: t).takeWhile (!endsModifier ·) = [] :=
    List.takeWhile_cons_of_neg (by rw [hc]; decide)
  rw [modifiersLoop, if_neg (List.cons_ne_nil _ _)]
  dsimp only
  rw [if_pos htake]

end

end KeyMap

end InputLeap
