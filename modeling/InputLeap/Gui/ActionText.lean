import InputLeap.Config.RuleText
import InputLeap.Gui.SequenceText

/-!
# Actions of hotkeys as text

## Main definitions

* `Gui.Action.effect` : what an action of a hotkey stands for.
* `Gui.Action.Portable` : the server can read the action as that.
* `Gui.Action.call` : the action as a name with arguments.

## Main results

* `effect_iff_portable` : an action is read as what it stands for exactly if it is portable.
-/

namespace InputLeap

namespace Gui

open RuleText (BlankLast Call Effect Reads adopt released)

variable (toLower : ℕ → ℕ) (cfg : Config)

/-! ### Meaning -/

/-- The direction as the server knows it. -/
def SwitchDirection.direction : SwitchDirection → Direction
  | left => .left
  | right => .right
  | up => .top
  | down => .bottom

/-- The mode as the server knows it. -/
def LockCursorMode.mode : LockCursorMode → InputFilter.Mode
  | toggle => .toggle
  | on => .on
  | off => .off

namespace Action

variable (a : Action)

/-- The screens that the keys of the action are for; `none` if one is not known. -/
def screens : Option (Std.TreeSet String) :=
  if a.haveScreens ∧ a.typeScreenNames ≠ [] then
    a.typeScreenNames.foldlM (fun screens name =>
      let canonical := cfg.getCanonicalName name
      if canonical = "" then none else some (screens.insert canonical)) ∅
  else some ((∅ : Std.TreeSet String).insert "*")

/-- The action presses first. -/
def presses : Bool := a.type ≠ .keyUp

/-- The action presses and releases. -/
def releases : Bool := a.type = .keystroke

/-- What the action stands for. -/
def effect : Option Effect :=
  match a.type with
  | .keyDown | .keyUp | .keystroke =>
    if a.keySequence.isMouseButton then
      a.keySequence.click.map fun info => ⟨.mouseButton info.1 info.2 a.presses, a.releases⟩
    else
      (a.keySequence.keystroke toLower).bind fun info =>
        (a.screens cfg).map fun screens =>
          ⟨.keystroke ⟨info.1, info.2, 0, 0, ConfigReadContext.join screens⟩ a.presses, a.releases⟩
  | .switchToScreen =>
    if cfg.isScreen a.switchScreenName then
      some ⟨.switchToScreen (cfg.getCanonicalName a.switchScreenName), false⟩
    else if a.switchScreenName = "" then some ⟨.switchToScreen "", false⟩
    else none
  | .toggleScreen => some ⟨.toggleScreen, false⟩
  | .switchInDirection => some ⟨.switchInDirection a.switchDirection.direction, false⟩
  | .lockCursorToScreen => some ⟨.lockCursorToScreen a.lockCursorMode.mode, false⟩

/-- The action has keys or buttons. -/
def Types : Prop := a.type = .keyDown ∨ a.type = .keyUp ∨ a.type = .keystroke

instance : Decidable a.Types := inferInstanceAs (Decidable (_ ∨ _))

/-- The server can read the action: its keys, the screens that they are for or the screen to
switch to, which must be named; an action without keys does not have those of a mouse button
left. -/
def Portable : Prop :=
  if a.Types then
    a.keySequence.Portable ∧
      (a.keySequence.isMouseButton = false → a.haveScreens = true →
        ∀ name ∈ a.typeScreenNames, cfg.getCanonicalName name ≠ "")
  else
    a.keySequence.isMouseButton = false ∧
      (a.type = .switchToScreen →
        a.switchScreenName ≠ "" ∧ cfg.isScreen a.switchScreenName = true)

instance : Decidable (a.Portable cfg) := by
  unfold Portable
  infer_instance

/-- A character of the names of screens. -/
def isNameChar (c : Char) : Bool := c.isAlphanum || c == '.' || c == '_' || c == '-'

/-- What the dialogs let through: an action with keys has a recorded sequence, and the names of
screens are made of letters, digits and some others. -/
structure Made : Prop where
  recorded : a.Types → a.keySequence.Recorded toLower
  names : ∀ name ∈ a.typeScreenNames, name ≠ "" ∧ ∀ c ∈ name.toList, isNameChar c = true
  screen : ∀ c ∈ a.switchScreenName.toList, isNameChar c = true

/-- The action as a name with arguments. -/
def call : Option Call := a.typeName.map fun name => ⟨a.activeOnRelease, name, a.args toLower⟩

theorem write_eq : a.write toLower = (a.call toLower).map Call.item := by
  rw [write, text, call, Option.map_map, Option.map_map]
  refine congrArg (Option.map · _) (funext fun name => ?_)
  simp only [Function.comp_apply, Call.item, Call.text]
  cases a.args toLower with
  | none => rfl
  | some args => simp only [List.append_assoc, List.cons_append]

end Action

/-! ### Characters -/

/-- The character does not end an argument. -/
def isTame (c : Char) : Bool :=
  c != '#' && c != ')' && c != ',' && c != '\n' && !Text.isBlank c

namespace KeySequence

variable {toLower} {ks : KeySequence} {mods : List ℕ} {key : ℕ}

theorem tame_of_plain {c : Char} (h : isPlain c = true) : isTame c = true := by
  have hblank := not_isBlank_of_plain h
  have hnewline : c ≠ '\n' := by
    rintro rfl
    exact absurd h (by decide)
  simp only [isPlain, Bool.and_eq_true, bne_iff_ne] at h
  simp [isTame, hblank, hnewline, h.1.1.1.2, h.1.1.2, h.1.2]

theorem keysText_append (k : Text) :
    keysText toLower mods k = keysText toLower mods [] ++ k := by
  induction mods with
  | nil => rw [keysText_nil, keysText_nil, List.nil_append]
  | cons m mods ih => rw [keysText_cons, keysText_cons, ih, List.append_assoc, List.cons_append]

variable (toLower) in
/-- Modifiers have no characters that end an argument. -/
theorem tame_modifiers (hmods : ∀ m ∈ mods, Modifiers m) :
    ∀ c ∈ keysText toLower mods [], isTame c = true := by
  intro c hc
  rcases mem_keysText.1 hc with ⟨m, hm, hc | rfl⟩ | hc
  · rcases keyToString_modifiers toLower (hmods m hm) with ⟨hmask, heq⟩ | ⟨-, heq | heq⟩
    · rw [heq] at hc
      exact tame_of_plain (modifierText_plain _ hmask c hc)
    · rw [heq] at hc
      obtain rfl := List.mem_singleton.1 hc
      decide
    · rw [heq] at hc
      cases hc
  · rfl
  · cases hc

/-- A key is a comment, a parenthesis or an argument. -/
theorem key_cases (hlower : LowersCode toLower) (hs : Shaped toLower ks mods key) :
    (∀ c ∈ keyToString toLower key, isTame c = true) ∨
      keyToString toLower key = ['#'] ∨ keyToString toLower key = [')'] := by
  by_cases hbutton : key < 0x20
  · rw [keyToString_button toLower hbutton]
    exact .inl fun c hc => tame_of_plain ((bare_button key hbutton hs.range.1).2.1 c hc)
  rcases hs.range.2 with hhigh | rfl | rfl
  · have htext := keyToString_of_lt toLower (not_lt.1 hbutton) hhigh
    have hne := hs.text
    rw [htext] at hne ⊢
    by_cases hbad : key ∈ unreadableKeys
    · simp only [unreadableKeys, List.mem_cons, List.not_mem_nil, or_false] at hbad
      rcases hbad with rfl | rfl | rfl | rfl
      all_goals rw [keyName_eq toLower (.inl (by decide))]
      · exact .inr (.inl (by decide))
      · exact .inr (.inr (by decide))
      · exact .inl (by decide)
      · exact .inl (by decide)
    · obtain ⟨n, -, hbare, -⟩ := readable_keyName hlower (not_lt.1 hbutton) hne hbad
      exact .inl fun c hc => tame_of_plain (hbare.2.1 c hc)
  · have htext : keyToString toLower (2 ^ 25) = "Shift".toList := by
      rw [keyToString, if_neg (by decide), if_neg (by decide), if_pos (by decide)]
    exact .inl (by rw [htext]; decide)
  · have htext : keyToString toLower (2 ^ 26) = "Control".toList := by
      rw [keyToString, if_neg (by decide), if_neg (by decide), if_neg (by decide),
        if_pos (by decide)]
    exact .inl (by rw [htext]; decide)

/-- The text of a sequence is an argument, or ends with a comment or a parenthesis. -/
theorem toString_cases (hlower : LowersCode toLower) (hs : Shaped toLower ks mods key) :
    (∀ c ∈ ks.toString toLower, isTame c = true) ∨
      ∃ s, (∀ c ∈ s, isTame c = true) ∧
        (ks.toString toLower = s ++ ['#'] ∨ ks.toString toLower = s ++ [')']) := by
  have htame := tame_modifiers toLower hs.modifiers
  rw [hs.toString_eq, keysText_append]
  rcases key_cases hlower hs with hkey | hkey | hkey
  · refine .inl fun c hc => ?_
    rcases List.mem_append.1 hc with hc | hc
    · exact htame c hc
    · exact hkey c hc
  · exact .inr ⟨_, htame, .inl (by rw [hkey])⟩
  · exact .inr ⟨_, htame, .inr (by rw [hkey])⟩

/-- A sequence is written on one line. -/
theorem newline_toString (hlower : LowersCode toLower) (hs : Shaped toLower ks mods key) :
    '\n' ∉ ks.toString toLower := by
  have hne {s : Text} (htame : ∀ c ∈ s, isTame c = true) : '\n' ∉ s := fun hc =>
    absurd (htame _ hc) (by decide)
  rcases toString_cases hlower hs with htame | ⟨s, htame, heq | heq⟩
  · exact hne htame
  · rw [heq, List.mem_append, not_or]
    exact ⟨hne htame, by decide⟩
  · rw [heq, List.mem_append, not_or]
    exact ⟨hne htame, by decide⟩

theorem toString_ne_nil (hs : Shaped toLower ks mods key) : ks.toString toLower ≠ [] := by
  rw [hs.toString_eq, keysText_append]
  exact List.append_ne_nil_of_right_ne_nil _ hs.text

/-- A button is an argument. -/
theorem tame_of_button (hs : Shaped toLower ks mods key) (hkey : key < 0x20) :
    ∀ c ∈ ks.toString toLower, isTame c = true := by
  intro c hc
  rw [hs.toString_eq, keysText_append, keyToString_button toLower hkey] at hc
  rcases List.mem_append.1 hc with hc | hc
  · exact tame_modifiers toLower hs.modifiers c hc
  · exact tame_of_plain ((bare_button key hkey hs.range.1).2.1 c hc)

end KeySequence

namespace Action

variable {toLower} {cfg} {a : Action}

/-! ### Names -/

/-- Letters and digits are ASCII. -/
theorem lt_of_isAlphanum {c : Char} (h : c.isAlphanum = true) : c.toNat < 128 := by
  have hcases : (c.isUpper = true ∨ c.isLower = true) ∨ c.isDigit = true := by
    change ((c.isUpper || c.isLower) || c.isDigit) = true at h
    simpa only [Bool.or_eq_true] using h
  rcases hcases with (hupper | hlower) | hdigit
  · have hle : c.val ≤ 'Z'.val := (of_decide_eq_true hupper).2
    exact Nat.lt_of_le_of_lt (UInt32.le_iff_toNat_le.1 hle) (by decide)
  · have hle : c.val ≤ 'z'.val := of_decide_eq_true (Bool.and_eq_true_iff.1 hlower).2
    exact Nat.lt_of_le_of_lt (UInt32.le_iff_toNat_le.1 hle) (by decide)
  · exact Nat.lt_of_le_of_lt (Char.isDigit_iff_toNat.1 hdigit).2 (by decide)

/-- The characters of names are ASCII. -/
theorem lt_of_isNameChar {c : Char} (h : isNameChar c = true) : c.toNat < 128 := by
  have hother : ∀ d ∈ ['.', '_', '-'], d.toNat < 128 := by decide
  simp only [isNameChar, Bool.or_eq_true, beq_iff_eq] at h
  rcases h with ((h | rfl) | rfl) | rfl
  · exact lt_of_isAlphanum h
  all_goals exact hother _ (by decide)

/-- A character that can be in a list of screens. -/
def isScreenChar (c : Char) : Bool := isNameChar c || c == ':' || c == '*'

theorem isScreenChar_spec {c : Char} (h : isScreenChar c = true) :
    isTame c = true ∧ ConfigReadContext.endsName ",;\n".toList c = false ∧
      ConfigReadContext.isValid c = true := by
  have hascii : c.toNat < 128 := by
    simp only [isScreenChar, Bool.or_eq_true, beq_iff_eq] at h
    rcases h with (h | rfl) | rfl
    · exact lt_of_isNameChar h
    · decide
    · decide
  have hall : ∀ n < 128, isScreenChar (Char.ofNat n) = true → isTame (Char.ofNat n) = true ∧
      ConfigReadContext.endsName ",;\n".toList (Char.ofNat n) = false ∧
      ConfigReadContext.isValid (Char.ofNat n) = true := by
    decide +kernel
  have hspec := hall c.toNat hascii
  rw [Char.ofNat_toNat] at hspec
  exact hspec h

theorem isNameChar_ne {c : Char} (h : isNameChar c = true) : c ≠ ':' ∧ c ≠ '*' := by
  constructor
  · rintro rfl
    exact absurd h (by decide)
  · rintro rfl
    exact absurd h (by decide)

theorem screenChar_of_name {c : Char} (h : isNameChar c = true) : isScreenChar c = true := by
  rw [isScreenChar, h]
  rfl

/-! ### Screens -/

/-- The screens behind the comma. -/
def screenList (a : Action) : Text :=
  if a.haveScreens ∧ a.typeScreenNames ≠ [] then
    List.intercalate [':'] (a.typeScreenNames.map String.toList)
  else ['*']

theorem screenArgs_eq (a : Action) : a.screenArgs = ',' :: a.screenList := by
  unfold screenArgs screenList
  split_ifs
  · rfl
  · rfl

theorem mem_intercalate {c : Char} {names : List Text}
    (hc : c ∈ List.intercalate [':'] names) : c = ':' ∨ ∃ name ∈ names, c ∈ name := by
  induction names with
  | nil => cases hc
  | cons name names ih =>
    cases names with
    | nil =>
      rw [List.intercalate_singleton] at hc
      exact .inr ⟨name, List.mem_cons_self, hc⟩
    | cons name' names =>
      rw [List.intercalate_cons_cons, List.mem_append, List.mem_append, List.mem_singleton] at hc
      rcases hc with (hc | hc) | hc
      · exact .inr ⟨name, List.mem_cons_self, hc⟩
      · exact .inl hc
      · rcases ih hc with h | ⟨x, hx, hmem⟩
        · exact .inl h
        · exact .inr ⟨x, List.mem_cons_of_mem _ hx, hmem⟩

theorem Made.screenList (h : a.Made toLower) : ∀ c ∈ a.screenList, isScreenChar c = true := by
  intro c hc
  rw [Action.screenList] at hc
  split_ifs at hc
  · rcases mem_intercalate hc with rfl | ⟨name, hname, hmem⟩
    · rfl
    · obtain ⟨n, hn, rfl⟩ := List.mem_map.1 hname
      exact screenChar_of_name ((h.names n hn).2 c hmem)
  · obtain rfl := List.mem_singleton.1 hc
    rfl

theorem Made.screenList_ne_nil (h : a.Made toLower) : a.screenList ≠ [] := by
  rw [Action.screenList]
  split_ifs with hscreens
  · obtain ⟨name, names, heq⟩ := List.exists_cons_of_ne_nil hscreens.2
    have hname := (h.names name (heq ▸ List.mem_cons_self)).1
    obtain ⟨c, s, hs⟩ := List.exists_cons_of_ne_nil (mt String.toList_eq_nil_iff.1 hname)
    rw [heq, List.map_cons, hs]
    cases names with
    | nil => exact List.cons_ne_nil _ _
    | cons name' names =>
      rw [List.map_cons, List.intercalate_cons_cons]
      exact List.cons_ne_nil _ _
  · exact List.cons_ne_nil _ _

theorem foldlM_ext {α β : Type} {f g : β → α → Option β} {l : List α}
    (h : ∀ b, ∀ x ∈ l, f b x = g b x) {b : β} : l.foldlM f b = l.foldlM g b := by
  induction l generalizing b with
  | nil => rfl
  | cons x l ih =>
    rw [List.foldlM_cons, List.foldlM_cons, h b x List.mem_cons_self]
    exact congrArg _ (funext fun b => ih fun b x hx => h b x (List.mem_cons_of_mem _ hx))

/-- The screens are read as they are meant. -/
theorem parseScreens_screenList (h : a.Made toLower) :
    cfg.parseScreens a.screenList = a.screens cfg := by
  rw [Action.screenList, screens]
  split_ifs with hscreens
  · have hparts : ∀ p ∈ a.typeScreenNames.map String.toList, ':' ∉ p := by
      intro p hp hmem
      obtain ⟨n, hn, rfl⟩ := List.mem_map.1 hp
      exact (isNameChar_ne ((h.names n hn).2 _ hmem)).1 rfl
    rw [Config.parseScreens, Text.splitOn_intercalate (by simpa using hscreens.2) hparts,
      List.foldlM_map]
    refine foldlM_ext fun screens name hname => ?_
    obtain ⟨hne, hchars⟩ := h.names name hname
    have htrim : Text.trim name.toList = name.toList := Text.trim_of_noBlank fun c hc => by
      have htame := (isScreenChar_spec (screenChar_of_name (hchars c hc))).1
      simp only [isTame, Bool.and_eq_true, Bool.not_eq_true'] at htame
      exact htame.2
    have hstar : name ≠ "*" := by
      rintro rfl
      exact (isNameChar_ne (hchars '*' (by decide))).2 rfl
    dsimp only
    rw [htrim, String.ofList_toList, if_neg hstar, if_neg hne]
  · rfl

/-- The screens are known exactly if each name is. -/
theorem screens_isSome :
    (∃ screens, a.screens cfg = some screens) ↔
      (a.haveScreens = true → ∀ name ∈ a.typeScreenNames, cfg.getCanonicalName name ≠ "") := by
  have hfold (names : List String) (screens : Std.TreeSet String) :
      (∃ s, names.foldlM (fun screens name =>
        let canonical := cfg.getCanonicalName name
        if canonical = "" then none else some (screens.insert canonical)) screens = some s) ↔
      ∀ name ∈ names, cfg.getCanonicalName name ≠ "" := by
    induction names generalizing screens with
    | nil => exact ⟨fun _ _ hname => (by cases hname), fun _ => ⟨screens, rfl⟩⟩
    | cons name names ih =>
      rw [List.foldlM_cons, List.forall_mem_cons]
      dsimp only
      by_cases hname : cfg.getCanonicalName name = ""
      · rw [if_pos hname]
        exact ⟨fun ⟨_, h⟩ => (by cases h), fun h => absurd hname h.1⟩
      · rw [if_neg hname]
        exact (ih _).trans ⟨fun h => ⟨hname, h⟩, And.right⟩
  rw [screens]
  split_ifs with hscreens
  · rw [hfold]
    exact ⟨fun h _ => h, fun h => h hscreens.1⟩
  · refine ⟨fun _ hhave name hname => ?_, fun _ => ⟨_, rfl⟩⟩
    exact absurd ⟨hhave, List.ne_nil_of_mem hname⟩ hscreens

/-! ### Arguments -/

open KeySequence (Enclosed tame_of_plain toString_cases shaped_of_recorded Shaped)

theorem trimArg_tame {s : Text} (h : ∀ c ∈ s, isTame c = true) :
    ConfigReadContext.trimArg s = s := by
  rw [ConfigReadContext.trimArg, ite_eq_left_iff]
  intro _
  refine Text.trim_of_noBlank fun c hc => ?_
  have htame := h c hc
  simp only [isTame, Bool.and_eq_true, Bool.not_eq_true'] at htame
  exact htame.2

theorem ne_of_tame {c : Char} (h : isTame c = true) :
    c ≠ '#' ∧ c ≠ ')' ∧ c ≠ ',' ∧ c ≠ '\n' := by
  simp only [isTame, Bool.and_eq_true, bne_iff_ne] at h
  exact ⟨h.1.1.1.1, h.1.1.1.2, h.1.1.2, h.1.2⟩

/-- An argument that is not empty is not blank. -/
theorem not_blankLast_tame {s : Text} (hne : s ≠ []) (h : ∀ c ∈ s, isTame c = true) :
    ¬ BlankLast s := by
  rw [RuleText.blankLast_of_not_mem fun hc => (ne_of_tame (h _ hc)).2.2.1 rfl, List.all_eq_true]
  intro hblank
  obtain ⟨c, s, rfl⟩ := List.exists_cons_of_ne_nil hne
  have htame := h c List.mem_cons_self
  rw [isTame, hblank c List.mem_cons_self] at htame
  simp at htame

/-- Nor are two arguments. -/
theorem not_blankLast_pair {s t : Text} (hs : ∀ c ∈ s, isTame c = true) (hne : t ≠ [])
    (ht : ∀ c ∈ t, isTame c = true) : ¬ BlankLast (s ++ ',' :: t) := by
  rw [RuleText.blankLast_append fun hc => (ne_of_tame (hs _ hc)).2.2.1 rfl]
  exact not_blankLast_tame hne ht

/-- An argument is read as it is. -/
theorem splitOn_tame {s : Text} (h : ∀ c ∈ s, isTame c = true) :
    (Text.splitOn ',' s).map ConfigReadContext.trimArg = [s] := by
  rw [Text.splitOn_of_not_mem fun hc => (ne_of_tame (h _ hc)).2.2.1 rfl, List.map_singleton,
    trimArg_tame h]

/-- So are two arguments. -/
theorem splitOn_tame_pair {s t : Text} (hs : ∀ c ∈ s, isTame c = true)
    (ht : ∀ c ∈ t, isTame c = true) :
    (Text.splitOn ',' (s ++ ',' :: t)).map ConfigReadContext.trimArg = [s, t] := by
  rw [Text.splitOn_append fun hc => (ne_of_tame (hs _ hc)).2.2.1 rfl, List.map_cons,
    splitOn_tame ht, trimArg_tame hs]

/-- Keys between parentheses do not end there. -/
theorem tame_of_enclosed (hlower : LowersCode toLower) {ks : KeySequence} {mods : List ℕ} {key : ℕ}
    (hs : Shaped toLower ks mods key) (h : Enclosed (ks.toString toLower)) :
    ∀ c ∈ ks.toString toLower, isTame c = true := by
  rcases toString_cases hlower hs with htame | ⟨s, -, heq | heq⟩
  · exact htame
  · exact absurd rfl (h '#' (by rw [heq]; simp)).2.1
  · exact absurd rfl (h ')' (by rw [heq]; simp)).2.2

/-! ### Reading -/

/-- The name of an action with keys or buttons. -/
def typingName (a : Action) : Text :=
  match a.type, a.keySequence.isMouseButton with
  | .keyDown, false => "keyDown".toList
  | .keyUp, false => "keyUp".toList
  | _, false => "keystroke".toList
  | .keyDown, true => "mouseDown".toList
  | .keyUp, true => "mouseUp".toList
  | _, true => "mousebutton".toList

theorem call_types (h : a.Types) :
    a.call toLower = some ⟨a.activeOnRelease, a.typingName,
      some (if a.keySequence.isMouseButton then a.keySequence.toString toLower
        else a.keySequence.toString toLower ++ ',' :: a.screenList)⟩ := by
  rw [call, typeName, args, screenArgs_eq, typingName]
  rcases h with h | h | h <;> rw [h] <;> cases a.keySequence.isMouseButton <;> rfl

/-- The keys of an action are read with its name. -/
theorem parseAction_keys (h : a.Types) (hmouse : a.keySequence.isMouseButton = false)
    (args : List Text) (rule : InputFilter.Rule) (activate : Bool) :
    cfg.parseAction a.typingName args rule activate =
      (cfg.parseKeyInfo args).map fun info =>
        adopt rule ⟨.keystroke info a.presses, a.releases⟩ activate := by
  rw [typingName, hmouse, presses, releases]
  rcases h with h | h | h <;> rw [h]
  · unfold Config.parseAction
    rw [if_neg (by decide), if_pos rfl]
    rfl
  · unfold Config.parseAction
    rw [if_neg (by decide), if_neg (by decide), if_pos rfl]
    rfl
  · unfold Config.parseAction
    rw [if_pos rfl]
    rfl

/-- So is its button. -/
theorem parseAction_button (h : a.Types) (hmouse : a.keySequence.isMouseButton = true)
    (arg : Text) (rule : InputFilter.Rule) (activate : Bool) :
    cfg.parseAction a.typingName [arg] rule activate =
      (ConfigReadContext.parseMouse arg).map fun info =>
        adopt rule ⟨.mouseButton info.1 info.2 a.presses, a.releases⟩ activate := by
  rw [typingName, hmouse, presses, releases]
  rcases h with h | h | h <;> rw [h]
  · unfold Config.parseAction
    rw [if_neg (by decide), if_neg (by decide), if_neg (by decide),
      if_neg (by decide), if_pos rfl]
    rfl
  · unfold Config.parseAction
    rw [if_neg (by decide), if_neg (by decide), if_neg (by decide),
      if_neg (by decide), if_neg (by decide), if_pos rfl]
    rfl
  · unfold Config.parseAction
    rw [if_neg (by decide), if_neg (by decide), if_neg (by decide),
      if_pos rfl]
    rfl

/-- An effect can be seen in the rule. -/
theorem adopt_injective {e e' : Effect} (h : adopt { condition := none } e true =
    adopt { condition := none } e' true) : e = e' := by
  obtain ⟨action, release⟩ := e
  obtain ⟨action', release'⟩ := e'
  cases release <;> cases release' <;>
    simp_all [adopt, InputFilter.Rule.adoptAction]

/-- The call is between parentheses, and is read as what the action stands for. -/
def ReadAsMeant (toLower : ℕ → ℕ) (cfg : Config) (a : Action) (c : Call) : Prop :=
  (∀ args ∈ c.args, Enclosed args ∧ ¬ BlankLast args) ∧ ∃ e ∈ a.effect toLower cfg, Reads cfg c e

variable {c : Call}

theorem effect_types (h : a.Types) :
    a.effect toLower cfg =
      if a.keySequence.isMouseButton then
        a.keySequence.click.map fun info => ⟨.mouseButton info.1 info.2 a.presses, a.releases⟩
      else
        (a.keySequence.keystroke toLower).bind fun info =>
          (a.screens cfg).map fun screens =>
            ⟨.keystroke ⟨info.1, info.2, 0, 0, ConfigReadContext.join screens⟩ a.presses,
              a.releases⟩ := by
  rw [effect]
  rcases h with h | h | h <;> rw [h]

theorem portable_types (h : a.Types) :
    a.Portable cfg ↔ a.keySequence.Portable ∧ (a.keySequence.isMouseButton = false →
      ∃ screens, a.screens cfg = some screens) := by
  rw [Portable, if_pos h, screens_isSome]

/-- **Keys of an action** are read as they are meant exactly if it is portable. -/
theorem readAsMeant_keys (hlower : LowersCode toLower) (hmade : a.Made toLower) (h : a.Types)
    (hmouse : a.keySequence.isMouseButton = false) (hc : a.call toLower = some c) :
    ReadAsMeant toLower cfg a c ↔ a.Portable cfg := by
  obtain ⟨mods, key, hs⟩ := shaped_of_recorded (hmade.recorded h)
  have hkey : 0x20 ≤ key := by
    rw [hs.isMouseButton_eq, decide_eq_false_iff_not] at hmouse
    exact not_lt.1 hmouse
  rw [call_types h] at hc
  cases hc
  rw [ReadAsMeant, effect_types h, portable_types h, if_neg (by rw [hmouse]; decide),
    if_neg (by rw [hmouse]; decide)]
  -- The screens do not break the line.
  have hscreens : Enclosed (',' :: a.screenList) := by
    intro d hd
    rcases List.mem_cons.1 hd with rfl | hd
    · decide
    · obtain ⟨htame, -, hvalid⟩ := isScreenChar_spec (hmade.screenList d hd)
      exact ⟨hvalid, (ne_of_tame htame).1, (ne_of_tame htame).2.1⟩
  have hargs (henclosed : Enclosed (a.keySequence.toString toLower)) :
      (Text.splitOn ',' (a.keySequence.toString toLower ++ ',' :: a.screenList)).map
        ConfigReadContext.trimArg = [a.keySequence.toString toLower, a.screenList] :=
    splitOn_tame_pair (tame_of_enclosed hlower hs henclosed)
      fun d hd => (isScreenChar_spec (hmade.screenList d hd)).1
  constructor
  · rintro ⟨henclosed, e, he, hread⟩
    have hkeys : Enclosed (a.keySequence.toString toLower) := fun d hd =>
      (henclosed _ rfl).1 d (List.mem_append_left _ hd)
    obtain ⟨info, hinfo, he⟩ := Option.bind_eq_some_iff.1 he
    obtain ⟨screens, hsome, rfl⟩ := Option.map_eq_some_iff.1 he
    refine ⟨?_, fun _ => ⟨screens, hsome⟩⟩
    refine (KeySequence.keystroke_iff_portable screens hlower hs hkey).1 ⟨hkeys, info, hinfo, ?_⟩
    have hparse := hread { condition := none } true
    dsimp only [RuleText.perform, Call.argList] at hparse
    rw [hargs hkeys, parseAction_keys h hmouse, Config.parseKeyInfo,
      parseScreens_screenList hmade, hsome, Option.bind_some] at hparse
    obtain ⟨info', hinfo', heq⟩ := Option.map_eq_some_iff.1 hparse
    have haction := congrArg Effect.action (adopt_injective heq)
    rw [hinfo']
    exact congrArg some (InputFilter.Action.keystroke.inj haction).1
  · rintro ⟨hportable, hknown⟩
    obtain ⟨screens, hsome⟩ := hknown hmouse
    obtain ⟨hkeys, info, hinfo, hparse⟩ :=
      (KeySequence.keystroke_iff_portable screens hlower hs hkey).2 hportable
    refine ⟨fun args hargs => ?_, _, Option.bind_eq_some_iff.2 ⟨info, hinfo,
      Option.map_eq_some_iff.2 ⟨screens, hsome, rfl⟩⟩, fun rule activate => ?_⟩
    · cases hargs
      refine ⟨fun d hd => ?_, not_blankLast_pair (tame_of_enclosed hlower hs hkeys)
        hmade.screenList_ne_nil fun d hd => (isScreenChar_spec (hmade.screenList d hd)).1⟩
      rcases List.mem_append.1 hd with hd | hd
      · exact hkeys d hd
      · exact hscreens d hd
    · dsimp only [RuleText.perform, Call.argList]
      rw [hargs hkeys, parseAction_keys h hmouse, Config.parseKeyInfo,
        parseScreens_screenList hmade, hsome, Option.bind_some, hparse, Option.map_some]

/-- **The button of an action** is read as it is meant exactly if it is portable. -/
theorem readAsMeant_button (hlower : LowersCode toLower) (hmade : a.Made toLower) (h : a.Types)
    (hmouse : a.keySequence.isMouseButton = true) (hc : a.call toLower = some c) :
    ReadAsMeant toLower cfg a c ↔ a.Portable cfg := by
  obtain ⟨mods, key, hs⟩ := shaped_of_recorded (hmade.recorded h)
  have hkey : key < 0x20 := by
    rw [hs.isMouseButton_eq, decide_eq_true_eq] at hmouse
    exact hmouse
  rw [call_types h] at hc
  cases hc
  rw [ReadAsMeant, effect_types h, portable_types h, if_pos hmouse, if_pos hmouse]
  have hargs (henclosed : Enclosed (a.keySequence.toString toLower)) :
      (Text.splitOn ',' (a.keySequence.toString toLower)).map ConfigReadContext.trimArg =
        [a.keySequence.toString toLower] :=
    splitOn_tame (tame_of_enclosed hlower hs henclosed)
  constructor
  · rintro ⟨henclosed, e, he, hread⟩
    have hkeys : Enclosed (a.keySequence.toString toLower) := (henclosed _ rfl).1
    obtain ⟨info, hinfo, rfl⟩ := Option.map_eq_some_iff.1 he
    refine ⟨(KeySequence.click_iff_portable hs hkey).1 ⟨hkeys, info, hinfo, ?_⟩, fun hnot => ?_⟩
    · have hparse := hread { condition := none } true
      dsimp only [RuleText.perform, Call.argList] at hparse
      rw [hargs hkeys, parseAction_button h hmouse] at hparse
      obtain ⟨info', hinfo', heq⟩ := Option.map_eq_some_iff.1 hparse
      have haction := congrArg Effect.action (adopt_injective heq)
      obtain ⟨hbutton, hmask, -⟩ := InputFilter.Action.mouseButton.inj haction
      rw [hinfo']
      exact congrArg some (Prod.ext hbutton hmask)
    · rw [hmouse] at hnot
      cases hnot
  · rintro ⟨hportable, -⟩
    obtain ⟨hkeys, info, hinfo, hparse⟩ := (KeySequence.click_iff_portable hs hkey).2 hportable
    refine ⟨fun args hargs => ?_, _, Option.map_eq_some_iff.2 ⟨info, hinfo, rfl⟩,
      fun rule activate => ?_⟩
    · cases hargs
      exact ⟨hkeys, not_blankLast_tame (KeySequence.toString_ne_nil hs)
        (tame_of_enclosed hlower hs hkeys)⟩
    · dsimp only [RuleText.perform, Call.argList]
      rw [hargs hkeys, parseAction_button h hmouse, hparse, Option.map_some]

/-- The name of an action without keys; it has the arguments of its kind. -/
theorem call_other (h : ¬ a.Types) (hc : a.call toLower = some c) :
    a.keySequence.isMouseButton = false ∧ c.marked = a.activeOnRelease ∧
      c.args = a.args toLower ∧
      c.name = match a.type with
        | .switchToScreen => "switchToScreen".toList
        | .toggleScreen => "toggleScreen".toList
        | .switchInDirection => "switchInDirection".toList
        | _ => "lockCursorToScreen".toList := by
  rw [call, typeName] at hc
  rw [Types, not_or, not_or] at h
  obtain ⟨hdown, hup, hstroke⟩ := h
  cases hmouse : a.keySequence.isMouseButton <;> rw [hmouse] at hc <;>
    cases htype : a.type <;> rw [htype] at hc <;>
    first
    | exact absurd htype hdown
    | exact absurd htype hup
    | exact absurd htype hstroke
    | cases hc <;> exact ⟨rfl, rfl, rfl, rfl⟩

theorem enclosed_of_names {s : Text} (h : ∀ x ∈ s, isNameChar x = true) :
    Enclosed s ∧ ∀ x ∈ s, isTame x = true := by
  have hspec (x : Char) (hx : x ∈ s) := isScreenChar_spec (screenChar_of_name (h x hx))
  exact ⟨fun x hx =>
      ⟨(hspec x hx).2.2, (ne_of_tame (hspec x hx).1).1, (ne_of_tame (hspec x hx).1).2.1⟩,
    fun x hx => (hspec x hx).1⟩

/-- A call whose arguments are a name. -/
theorem argList_name {s : Text} (hargs : c.args = some s) (h : ∀ x ∈ s, isNameChar x = true) :
    c.argList = [s] ∧ (s ≠ [] → ∀ args ∈ c.args, Enclosed args ∧ ¬ BlankLast args) := by
  obtain ⟨henclosed, htame⟩ := enclosed_of_names h
  refine ⟨?_, fun hne args hmem => ?_⟩
  · rw [Call.argList, hargs]
    exact splitOn_tame htame
  · rw [hargs] at hmem
    cases hmem
    exact ⟨henclosed, not_blankLast_tame hne htame⟩

/-- **An action without keys** is read as it is meant exactly if it is portable. -/
theorem readAsMeant_other (hmade : a.Made toLower) (h : ¬ a.Types) (hc : a.call toLower = some c) :
    ReadAsMeant toLower cfg a c ↔ a.Portable cfg := by
  obtain ⟨hmouse, -, hargs, hname⟩ := call_other h hc
  rw [Portable, if_neg h, ReadAsMeant]
  simp only [hmouse, true_and]
  rw [Types, not_or, not_or] at h
  obtain ⟨hdown, hup, hstroke⟩ := h
  cases htype : a.type with
  | keyDown => exact absurd htype hdown
  | keyUp => exact absurd htype hup
  | keystroke => exact absurd htype hstroke
  | switchToScreen =>
    rw [htype] at hname
    rw [args, htype] at hargs
    obtain ⟨hlist, henclosed⟩ := argList_name hargs hmade.screen
    -- What the parser makes of the screen's name.
    have hparse (rule : InputFilter.Rule) (activate : Bool) :
        RuleText.perform cfg c activate rule =
          if cfg.isScreen a.switchScreenName then
            some (rule.adoptAction
              (.switchToScreen (cfg.getCanonicalName a.switchScreenName)) activate)
          else if a.switchScreenName = "" then
            some (rule.adoptAction (.switchToScreen "") activate)
          else none := by
      rw [RuleText.perform, hname, hlist]
      unfold Config.parseAction
      rw [if_neg (by decide), if_neg (by decide), if_neg (by decide), if_neg (by decide),
        if_neg (by decide), if_neg (by decide), if_pos rfl]
      dsimp only
      rw [String.ofList_toList]
    rw [effect, htype]
    simp only [Reads, hparse, forall_const]
    by_cases hempty : a.switchScreenName = ""
    · -- a call with an empty argument is not read
      refine ⟨fun hread => ?_, fun h => absurd hempty h.1⟩
      have hlast := (hread.1 _ hargs).2
      rw [hempty] at hlast
      exact absurd (by decide) hlast
    · have hne := mt String.toList_eq_nil_iff.1 hempty
      split_ifs with hscreen
      · exact ⟨fun _ => ⟨hempty, hscreen⟩, fun _ => ⟨henclosed hne, _, rfl, fun _ _ => rfl⟩⟩
      · refine ⟨?_, fun h => absurd h.2 hscreen⟩
        rintro ⟨_, _, he, _⟩
        cases he
  | toggleScreen =>
    rw [htype] at hname
    rw [args, htype] at hargs
    refine ⟨fun _ h => (by cases h), fun _ => ⟨fun args hmem => ?_, ?_⟩⟩
    · rw [hargs] at hmem
      cases hmem
    · refine ⟨⟨.toggleScreen, false⟩, by rw [effect, htype]; rfl, fun rule activate => ?_⟩
      rw [RuleText.perform, hname]
      unfold Config.parseAction
      rw [if_neg (by decide), if_neg (by decide), if_neg (by decide), if_neg (by decide),
        if_neg (by decide), if_neg (by decide), if_neg (by decide), if_pos rfl]
      rfl
  | switchInDirection =>
    rw [htype] at hname
    rw [args, htype] at hargs
    have hletters : ∀ x ∈ a.switchDirection.name, isNameChar x = true := by
      cases a.switchDirection <;> decide
    obtain ⟨hlist, henclosed⟩ := argList_name hargs hletters
    have hne : a.switchDirection.name ≠ [] := by
      cases a.switchDirection <;> decide
    refine ⟨fun _ h => (by cases h), fun _ => ⟨henclosed hne, ⟨.switchInDirection _, false⟩,
      by rw [effect, htype]; rfl, fun rule activate => ?_⟩⟩
    rw [RuleText.perform, hname, hlist]
    unfold Config.parseAction
    rw [if_neg (by decide), if_neg (by decide), if_neg (by decide), if_neg (by decide),
      if_neg (by decide), if_neg (by decide), if_neg (by decide), if_neg (by decide), if_pos rfl]
    cases a.switchDirection <;> rfl
  | lockCursorToScreen =>
    rw [htype] at hname
    rw [args, htype] at hargs
    have hletters : ∀ x ∈ a.lockCursorMode.name, isNameChar x = true := by
      cases a.lockCursorMode <;> decide
    obtain ⟨hlist, henclosed⟩ := argList_name hargs hletters
    have hne : a.lockCursorMode.name ≠ [] := by
      cases a.lockCursorMode <;> decide
    refine ⟨fun _ h => (by cases h), fun _ => ⟨henclosed hne, ⟨.lockCursorToScreen _, false⟩,
      by rw [effect, htype]; rfl, fun rule activate => ?_⟩⟩
    rw [RuleText.perform, hname, hlist]
    unfold Config.parseAction
    rw [if_neg (by decide), if_neg (by decide), if_neg (by decide), if_neg (by decide),
      if_neg (by decide), if_neg (by decide), if_neg (by decide), if_neg (by decide),
      if_neg (by decide), if_pos rfl]
    cases a.lockCursorMode <;> rfl

/-- **An action is read as it is meant** exactly if it is portable. -/
theorem readAsMeant_iff_portable (hlower : LowersCode toLower) (hmade : a.Made toLower)
    (hc : a.call toLower = some c) : ReadAsMeant toLower cfg a c ↔ a.Portable cfg := by
  by_cases h : a.Types
  · cases hmouse : a.keySequence.isMouseButton with
    | false => exact readAsMeant_keys hlower hmade h hmouse hc
    | true => exact readAsMeant_button hlower hmade h hmouse hc
  · exact readAsMeant_other hmade h hc

/-! ### The text of an action -/

/-- The name of an action is made of letters. -/
theorem named_of_call (hc : a.call toLower = some c) :
    c.Named ∧ c.marked = a.activeOnRelease := by
  have hnames : ∀ name ∈ typeNames, name.toList ≠ [] ∧ ∀ x ∈ name.toList, x.isAlpha = true := by
    decide
  rw [call, typeName] at hc
  obtain ⟨name, hname, rfl⟩ := Option.map_eq_some_iff.1 hc
  obtain ⟨s, hs, rfl⟩ := Option.map_eq_some_iff.1 hname
  exact ⟨hnames s (List.mem_of_getElem? hs), rfl⟩

/-- An action that releases what it presses has the name of one. -/
theorem releases_call (hc : a.call toLower = some c) : RuleText.releases c.name = a.releases := by
  by_cases h : a.Types
  · rw [call_types h] at hc
    cases hc
    rw [releases]
    dsimp only [typingName]
    rcases h with h | h | h <;> rw [h] <;> cases a.keySequence.isMouseButton <;> decide
  · obtain ⟨-, -, -, hname⟩ := call_other h hc
    rw [hname, releases]
    rw [Types, not_or, not_or] at h
    obtain ⟨hdown, hup, hstroke⟩ := h
    cases htype : a.type with
    | keyDown => exact absurd htype hdown
    | keyUp => exact absurd htype hup
    | keystroke => exact absurd htype hstroke
    | _ => decide

theorem release_of_effect {e : Effect} (he : a.effect toLower cfg = some e) :
    e.release = a.releases := by
  by_cases h : a.Types
  · rw [effect_types h] at he
    split_ifs at he
    · obtain ⟨info, -, rfl⟩ := Option.map_eq_some_iff.1 he
      rfl
    · obtain ⟨info, -, he⟩ := Option.bind_eq_some_iff.1 he
      obtain ⟨screens, -, rfl⟩ := Option.map_eq_some_iff.1 he
      rfl
  · rw [effect] at he
    rw [releases]
    rw [Types, not_or, not_or] at h
    obtain ⟨hdown, hup, hstroke⟩ := h
    cases htype : a.type with
    | keyDown => exact absurd htype hdown
    | keyUp => exact absurd htype hup
    | keystroke => exact absurd htype hstroke
    | switchToScreen =>
      rw [htype] at he
      dsimp only at he
      split_ifs at he <;> cases he <;> rfl
    | toggleScreen | switchInDirection | lockCursorToScreen =>
      rw [htype] at he
      cases he
      rfl

/-- Arguments with a comma have no comment and no parenthesis. -/
theorem uncommented_of_tame {s : Text} (h : ∀ x ∈ s, isTame x = true ∨ x = ',') :
    '#' ∉ s ∧ ')' ∉ s := by
  constructor
  · intro hx
    rcases h _ hx with h | h
    · exact (ne_of_tame h).1 rfl
    · cases h
  · intro hx
    rcases h _ hx with h | h
    · exact (ne_of_tame h).2.1 rfl
    · cases h

/-- A call with such arguments is closed if the last one is not blank. -/
theorem closed_of_tame {s : Text} (hargs : c.args = some s)
    (h : ∀ x ∈ s, isTame x = true ∨ x = ',') (hlast : ¬ BlankLast s) : c.Closed := by
  intro args hmem
  rw [hargs] at hmem
  cases hmem
  exact ⟨(uncommented_of_tame h).1, (uncommented_of_tame h).2, hlast⟩

/-- The argument of an action without keys is a name. -/
theorem args_other (hmade : a.Made toLower) (h : ¬ a.Types) (hc : a.call toLower = some c) :
    ∀ args ∈ c.args, ∀ x ∈ args, isNameChar x = true := by
  obtain ⟨-, -, hargs, -⟩ := call_other h hc
  rw [Types, not_or, not_or] at h
  obtain ⟨hdown, hup, hstroke⟩ := h
  rw [hargs, args]
  cases htype : a.type with
  | keyDown => exact absurd htype hdown
  | keyUp => exact absurd htype hup
  | keystroke => exact absurd htype hstroke
  | switchToScreen =>
    intro args hmem
    cases hmem
    exact hmade.screen
  | toggleScreen => exact fun args hmem => by cases hmem
  | switchInDirection =>
    intro args hmem
    cases hmem
    cases a.switchDirection <;> decide
  | lockCursorToScreen =>
    intro args hmem
    cases hmem
    cases a.lockCursorMode <;> decide

/-- The arguments of an action are closed, or broken by its key. -/
theorem closed_or_broken (hlower : LowersCode toLower) (hmade : a.Made toLower)
    (hc : a.call toLower = some c) : c.Closed ∨ c.Broken := by
  by_cases h : a.Types
  · obtain ⟨mods, key, hs⟩ := shaped_of_recorded (hmade.recorded h)
    rw [call_types h] at hc
    cases hmouse : a.keySequence.isMouseButton with
    | true =>
      rw [if_pos hmouse] at hc
      cases hc
      rw [hs.isMouseButton_eq, decide_eq_true_eq] at hmouse
      have htame := KeySequence.tame_of_button hs hmouse
      exact .inl (closed_of_tame rfl (fun x hx => .inl (htame x hx))
        (not_blankLast_tame (KeySequence.toString_ne_nil hs) htame))
    | false =>
      rw [if_neg (by rw [hmouse]; decide)] at hc
      cases hc
      have hscreens : ∀ x ∈ a.screenList, isScreenChar x = true := hmade.screenList
      -- the key can be a comment sign or a closing parenthesis
      rcases toString_cases hlower hs with htame | ⟨s, htame, heq | heq⟩
      · refine .inl (closed_of_tame rfl (fun x hx => ?_) (not_blankLast_pair htame
          hmade.screenList_ne_nil fun x hx => (isScreenChar_spec (hscreens x hx)).1))
        rcases List.mem_append.1 hx with hx | hx
        · exact .inl (htame x hx)
        rcases List.mem_cons.1 hx with rfl | hx
        · exact .inr rfl
        · exact .inl (isScreenChar_spec (hscreens x hx)).1
      · refine .inr (.comment s (',' :: a.screenList) ?_ (fun hx => (ne_of_tame (htame _ hx)).1 rfl)
          fun hx => (ne_of_tame (htame _ hx)).2.1 rfl)
        rw [heq, List.append_assoc]
        rfl
      · refine .inr (.close s a.screenList ?_ (fun hx => (ne_of_tame (htame _ hx)).1 rfl)
          (fun hx => (ne_of_tame (htame _ hx)).2.1 rfl) fun x hx => ?_)
        · rw [heq, List.append_assoc]
          rfl
        · obtain ⟨hx', hends, -⟩ := isScreenChar_spec (hscreens x hx)
          exact ⟨hends, (ne_of_tame hx').1⟩
  · cases hargs : c.args with
    | none => exact .inl fun args hmem => by rw [hargs] at hmem; cases hmem
    | some args =>
      have htame : ∀ x ∈ args, isTame x = true := fun x hx =>
        (isScreenChar_spec (screenChar_of_name (args_other hmade h hc args hargs x hx))).1
      obtain ⟨hcomment, hclose⟩ := uncommented_of_tame fun x hx => .inl (htame x hx)
      by_cases hlast : BlankLast args
      · exact .inr (.blank args hargs hcomment hclose hlast)
      · exact .inl (closed_of_tame hargs (fun x hx => .inl (htame x hx)) hlast)

/-- An action is written on one line. -/
theorem newline_args (hlower : LowersCode toLower) (hmade : a.Made toLower)
    (hc : a.call toLower = some c) : ∀ args ∈ c.args, '\n' ∉ args := by
  intro args hmem
  have hne {s : Text} (hs : ∀ x ∈ s, isScreenChar x = true) : '\n' ∉ s := fun hx =>
    (ne_of_tame (isScreenChar_spec (hs _ hx)).1).2.2.2 rfl
  by_cases h : a.Types
  · obtain ⟨mods, key, hs⟩ := shaped_of_recorded (hmade.recorded h)
    have hkeys := KeySequence.newline_toString hlower hs
    rw [call_types h] at hc
    cases hc
    cases hmem
    split_ifs
    · exact hkeys
    · rw [List.mem_append, List.mem_cons, not_or, not_or]
      exact ⟨hkeys, by decide, hne hmade.screenList⟩
  · exact hne fun x hx => screenChar_of_name (args_other hmade h hc args hmem x hx)

variable (toLower) in
/-- A portable action is written. -/
theorem call_of_portable (hportable : a.Portable cfg) : ∃ c, a.call toLower = some c := by
  by_cases h : a.Types
  · exact ⟨_, call_types h⟩
  · rw [Portable, if_neg h] at hportable
    rw [call, typeName, hportable.1]
    cases a.type <;> exact ⟨_, rfl⟩

end Action

end Gui

end InputLeap
